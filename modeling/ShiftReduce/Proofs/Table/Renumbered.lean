import ShiftReduce.Proofs.Automaton.Renumbered
import ShiftReduce.Proofs.Table.Candidates

/-!
# The table of a grammar with other numbers

The order of the productions decides in which order the table is filled, and with that which action
of a cell is kept. So two grammars that differ in the numbers of their productions only can have
tables that differ in more than numbers: where several reductions want a cell, each table keeps
another one. What does not depend on the numbers is how many conflicts there are, and of which kind.

## The kinds of the conflicts in a cell

The actions that want a cell come as a shift, if there is one, then acceptances, then reductions of
different productions. Which kinds of conflict arise depends on how many there are of each
(`ShiftReduce.Table.rejectedKinds_eq_kindsOf`), and for twin states these numbers are the same
(`ShiftReduce.Table.map_kind_conflictsAt_eq`). Acceptances come before reductions, since
the fresh start symbol has one production, the first
(`ShiftReduce.Augmented.topsFirst_of_ofGrammar`). Counted over all cells, both tables have as many
conflicts of each kind (`ShiftReduce.Table.countP_kind_eq`).

## The entries of a table without conflicts

Without conflicts the entries of the tables are the reasons for them in the automata, so in twin
states they say the same (`ShiftReduce.Table.rel_get?_action`). The states to go to are twins in any
case (`ShiftReduce.Table.rel_get?_goto`).
-/

namespace ShiftReduce

/-! ### Counting by keys -/

/-- What has a property is counted key by key. -/
theorem countP_eq_sum_countP_filter {α β : Type} [DecidableEq β] (p : α → Bool) (key : α → β)
    {keys : List β} (hkeys : keys.Nodup) {l : List α} (hl : ∀ a ∈ l, key a ∈ keys) :
    l.countP p = (keys.map fun c => (l.filter (key · = c)).countP p).sum := by
  induction keys generalizing l with
  | nil =>
    have hnil : l = [] := List.eq_nil_iff_forall_not_mem.mpr fun a ha =>
      absurd (hl a ha) List.not_mem_nil
    simp [hnil]
  | cons c keys ih =>
    obtain ⟨hc, hkeys⟩ := List.nodup_cons.mp hkeys
    -- the members with another key are counted by the later keys
    have hrest := ih hkeys (l := l.filter (key · ≠ c)) fun a ha => by
      obtain ⟨ha, hne⟩ := List.mem_filter.mp ha
      exact (List.mem_cons.mp (hl a ha)).resolve_left (of_decide_eq_true hne)
    have hfilter : ∀ c' ∈ keys, (l.filter (key · ≠ c)).filter (key · = c') =
        l.filter (key · = c') := by
      intro c' hc'
      rw [List.filter_filter]
      refine List.filter_congr fun a _ => ?_
      by_cases ha : key a = c'
      · have hne : c' ≠ c := fun heq => hc (heq ▸ hc')
        simp [ha, hne]
      · simp [ha]
    have hsplit : l.countP p =
        (l.filter (key · = c)).countP p + (l.filter (key · ≠ c)).countP p := by
      have hpred : (fun a => decide (key a ≠ c)) = fun a => !decide (key a = c) := by
        funext a
        simp
      rw [hpred, ← List.countP_append]
      exact ((List.filter_append_perm _ l).countP_eq p).symm
    rw [List.map_cons, List.sum_cons, hsplit, hrest]
    exact congrArg (_ + ·) (congrArg List.sum (List.map_congr_left fun c' hc' => by
      rw [hfilter c' hc']))

namespace Augmented

/-- **The productions of the fresh start symbol come first.** There is but one of them if the symbol
is fresh. -/
def TopsFirst (A : Augmented) : Prop :=
  ∀ j k : ℕ, j < A.productions.size → k < A.productions.size → A.lhs j = A.top →
    A.lhs k ≠ A.top → j < k

/-- **In the companion of a grammar that was built from rows the productions of the fresh start
symbol come first.** -/
theorem topsFirst_of_ofGrammar {rows : List Row} {g : Grammar} {settings : Settings} {A : Augmented}
    (hg : Grammar.ofRows rows = .ok g) (hA : ofGrammar g settings = .ok A) : A.TopsFirst := by
  have haug := augments_of_ofGrammar (Grammar.wellFormed_of_ofRows hg) hA
  obtain ⟨authored, hfirst⟩ := haug.first
  intro j k hj hk htop hne
  -- the production that comes later is not the first one
  cases k with
  | zero => exact absurd (lhs_eq hfirst) hne
  | succ k =>
    cases j with
    | zero => exact Nat.succ_pos k
    | succ j =>
      have hp := Array.getElem?_eq_getElem hj
      rw [lhs_eq hp] at htop
      -- a fresh symbol has the first production only
      have hfresh := isFresh_of_ofGrammar hA
      exact absurd ((hfresh.lhs_eq_top_iff haug hp).mp htop) (Nat.succ_ne_zero j)

end Augmented

namespace Table

open Automaton Augmented

/-! ### Conflicts by kinds -/

/-- The kinds of the conflicts that actions bring which want one cell, one after the other. -/
def rejectedKinds : List Action → List ConflictKind
  | [] => []
  | kept :: later => (later.filter (· ≠ kept)).map (ConflictKind.of kept)

/-- **The conflicts of a cell have the kinds that the actions written to it bring.** -/
theorem map_kind_conflictsAt (g : Augmented) (ws : List Write) (t : Table) (c : Cell)
    (hempty : t.conflictsAt c = []) (hnone : t.action.get? c = none) :
    ((ws.foldl (add g) t).conflictsAt c).map Conflict.kind =
      rejectedKinds ((writesAt ws c).map (·.action)) := by
  rw [conflictsAt_foldl_add hnone, hempty, List.nil_append]
  cases writesAt ws c with
  | nil => rfl
  | cons w later =>
    simp only [rejections, List.map_cons, rejectedKinds, List.filter_map, List.map_map]
    rfl

/-- The kinds of the conflicts that so many shifts, acceptances and reductions bring. -/
def kindsOf (shifts accepts reductions : ℕ) : List ConflictKind :=
  if 0 < shifts then List.replicate (accepts + reductions) .shiftReduce
  else if 0 < accepts then List.replicate reductions .reduceReduce
  else List.replicate (reductions - 1) .reduceReduce

/-- The reductions of some productions. -/
def reductions (ps : List ℕ) : List Action :=
  ps.map fun p : ℕ => .reduce p

@[simp] theorem length_reductions (ps : List ℕ) : (reductions ps).length = ps.length :=
  List.length_map _

theorem mem_reductions {ps : List ℕ} {act : Action} :
    act ∈ reductions ps ↔ ∃ p ∈ ps, .reduce (p : ℤ) = act :=
  List.mem_map

theorem reduce_mem_reductions {ps : List ℕ} {p : ℕ} :
    .reduce (p : ℤ) ∈ reductions ps ↔ p ∈ ps := by
  rw [mem_reductions]
  constructor
  · rintro ⟨p', hp', heq⟩
    obtain rfl : p' = p := by exact_mod_cast Action.reduce.inj heq
    exact hp'
  · exact fun hp => ⟨p, hp, rfl⟩

/-- Where an action is kept, the others are rejected, each for the same kind of conflict. -/
theorem rejectedKinds_cons_of_forall (kept : Action) (later : List Action) (kind : ConflictKind)
    (hne : ∀ act ∈ later, act ≠ kept) (hkind : ∀ act ∈ later, ConflictKind.of kept act = kind) :
    rejectedKinds (kept :: later) = List.replicate later.length kind := by
  have hall : later.filter (· ≠ kept) = later :=
    List.filter_eq_self.mpr fun act hact => decide_eq_true (hne act hact)
  rw [rejectedKinds, hall, List.eq_replicate_iff, List.length_map]
  refine ⟨rfl, fun k hk => ?_⟩
  obtain ⟨act, hact, rfl⟩ := List.mem_map.mp hk
  exact hkind act hact

/-- Of several reductions the first is kept. -/
theorem rejectedKinds_reductions {ps : List ℕ} (hps : ps.Nodup) :
    rejectedKinds (reductions ps) = List.replicate (ps.length - 1) .reduceReduce := by
  cases ps with
  | nil => rfl
  | cons p ps =>
    obtain ⟨hp, -⟩ := List.nodup_cons.mp hps
    have hkinds := rejectedKinds_cons_of_forall (.reduce p) (reductions ps) .reduceReduce
      (fun act hact heq => hp (reduce_mem_reductions.mp (heq ▸ hact)))
      (fun act hact => by
        obtain ⟨p', -, rfl⟩ := mem_reductions.mp hact
        rfl)
    rw [length_reductions] at hkinds
    exact hkinds

/-- Where success is kept, it may come once more, and reductions are rejected. -/
theorem rejectedKinds_accept (n : ℕ) (ps : List ℕ) :
    rejectedKinds (.accept :: (List.replicate n .accept ++ reductions ps)) =
      List.replicate ps.length .reduceReduce := by
  have honce : rejectedKinds (.accept :: (List.replicate n .accept ++ reductions ps)) =
      rejectedKinds (.accept :: reductions ps) := by
    simp [rejectedKinds, List.filter_append]
  rw [honce, rejectedKinds_cons_of_forall .accept (reductions ps) .reduceReduce,
    length_reductions]
  · intro act hact heq
    obtain ⟨p, -, rfl⟩ := mem_reductions.mp hact
    exact absurd heq (by simp)
  · intro act hact
    obtain ⟨p, -, rfl⟩ := mem_reductions.mp hact
    rfl

/-- Where a shift is kept, everything else is rejected. -/
theorem rejectedKinds_shift (r : ℤ) (n : ℕ) (ps : List ℕ) :
    rejectedKinds (.shift r :: (List.replicate n .accept ++ reductions ps)) =
      List.replicate (n + ps.length) .shiftReduce := by
  have hsorts : ∀ act ∈ List.replicate n .accept ++ reductions ps, act.isShift = false := by
    intro act hact
    rcases List.mem_append.mp hact with hact | hact
    · rw [List.eq_of_mem_replicate hact]
      rfl
    · obtain ⟨p, -, rfl⟩ := mem_reductions.mp hact
      rfl
  rw [rejectedKinds_cons_of_forall (.shift r) _ .shiftReduce, List.length_append,
    List.length_replicate, length_reductions]
  · exact fun act hact heq => by simpa [heq, Action.isShift] using hsorts act hact
  · exact fun act _ => by simp [ConflictKind.of, Action.isShift]

/-- **Which conflicts arise in a cell can be told from how many actions of each sort want it**: at
most one shift, then acceptances, then reductions of different productions. -/
theorem rejectedKinds_eq_kindsOf {shifts : List Action} (n : ℕ) {ps : List ℕ} (hps : ps.Nodup)
    (hshifts : shifts = [] ∨ ∃ r : ℕ, shifts = [.shift r]) :
    rejectedKinds (shifts ++ (List.replicate n .accept ++ reductions ps)) =
      kindsOf shifts.length n ps.length := by
  rcases hshifts with rfl | ⟨r, rfl⟩
  · cases n with
    | zero => exact rejectedKinds_reductions hps
    | succ n => exact rejectedKinds_accept n ps
  · exact rejectedKinds_shift r n ps

/-! ### The actions that want a cell -/

/-- The productions that a state completes, by ascending numbers. -/
def completed (A : Augmented) (s : State) : List ℕ :=
  (List.range A.productions.size).filter (Completes (ofAugmented A) s ·)

/-- How often success wants a cell. -/
def acceptances (A : Augmented) (s : State) (x : Symbol) : ℕ :=
  if x = endMarker then ((completed A s).filter (A.lhs · = A.top)).length else 0

/-- The productions whose reductions want the cells of a state. -/
def reducible (A : Augmented) (s : State) : List ℕ :=
  (completed A s).filter (A.lhs · ≠ A.top)

section Cell

variable {A : Augmented} {s : State} {x : Symbol} {p : ℕ}

theorem nodup_completed : (completed A s).Nodup :=
  List.nodup_range.filter _

theorem mem_completed (hA : 0 < A.productions.size) (hs : s ∈ (ofAugmented A).states) :
    p ∈ completed A s ↔ (⟨p, (A.rhs p).length⟩ : Item) ∈ s.items := by
  rw [completed, List.mem_filter, List.mem_range, decide_eq_true_eq, completes_iff hA hs]
  refine ⟨And.right, fun hi => ⟨?_, hi⟩⟩
  have hholds : (ofAugmented A).Holds s.id ⟨p, (A.rhs p).length⟩ := ⟨s, hs, rfl, hi⟩
  exact (Augmented.mem_items.mp (hholds.mem_items hA)).1

/-- If the productions of the fresh start symbol come first, they do so among those that a state
completes. -/
theorem completed_eq_append (htops : A.TopsFirst) :
    completed A s = (completed A s).filter (A.lhs · = A.top) ++ reducible A s := by
  have hascending : (completed A s).Pairwise (· < ·) := List.pairwise_lt_range.filter _
  have hlt : ∀ p ∈ completed A s, p < A.productions.size := fun p hp =>
    List.mem_range.mp (List.mem_filter.mp hp).1
  refine hascending.eq_of_mem_iff (List.pairwise_append.mpr
    ⟨hascending.filter _, hascending.filter _, fun j hj k hk => ?_⟩) fun p => ?_
  · obtain ⟨hj, hj'⟩ := List.mem_filter.mp hj
    obtain ⟨hk, hk'⟩ := List.mem_filter.mp hk
    exact htops j k (hlt j hj) (hlt k hk) (of_decide_eq_true hj') (of_decide_eq_true hk')
  · simp only [reducible, List.mem_append, List.mem_filter, decide_eq_true_eq, ← and_or_left,
      ne_eq, em, and_true]

/-- What the completed productions write to a cell: success as often as it wants the cell, and the
reductions. -/
theorem map_action_flatMap_completedWrites (htops : A.TopsFirst) :
    ((completed A s).flatMap (completedWrites A s x)).map (·.action) =
      List.replicate (acceptances A s x) .accept ++ reductions (reducible A s) := by
  have haccept : (((completed A s).filter (A.lhs · = A.top)).flatMap
      (completedWrites A s x)).map (·.action) = List.replicate (acceptances A s x) .accept := by
    rw [List.map_flatMap, acceptances]
    have hwrites : ∀ p ∈ (completed A s).filter (A.lhs · = A.top),
        (completedWrites A s x p).map (·.action) = if x = endMarker then [.accept] else [] := by
      intro p hp
      rw [completedWrites, if_pos (of_decide_eq_true (List.mem_filter.mp hp).2)]
      split_ifs <;> rfl
    rw [List.flatMap_congr hwrites]
    split_ifs with hx
    · rw [← List.map_eq_flatMap, List.map_const']
    · simp
  have hreduce : ((reducible A s).flatMap (completedWrites A s x)).map (·.action) =
      reductions (reducible A s) := by
    rw [List.map_flatMap, reductions, List.map_eq_flatMap]
    refine List.flatMap_congr fun p hp => ?_
    rw [completedWrites, if_neg (of_decide_eq_true (List.mem_filter.mp hp).2)]
    rfl
  rw [completed_eq_append htops, List.flatMap_append, List.map_append, haccept, hreduce]

/-- **The conflicts of a cell have kinds that can be told from the numbers** of shifts, acceptances
and reductions that want it. -/
theorem map_kind_conflictsAt_ofAugmented (hA : 0 < A.productions.size) (htops : A.TopsFirst)
    (hs : s ∈ (ofAugmented A).states) (hx : x ∈ A.lookaheads) :
    ((ofAutomaton (ofAugmented A)).conflictsAt ⟨s.id, x⟩).map Conflict.kind =
      kindsOf (shiftCandidates (ofAugmented A) s x).length (acceptances A s x)
        (reducible A s).length := by
  have hactions : (writesAt ((ofAugmented A).states.flatMap (stateWrites (ofAugmented A)))
      ⟨s.id, x⟩).map (·.action) = shiftCandidates (ofAugmented A) s x ++
        (List.replicate (acceptances A s x) .accept ++ reductions (reducible A s)) := by
    rw [writesAt_flatMap hA hs, stateWrites, List.filter_append, filter_shiftWrites,
      filter_flatMap_itemWrites hA hs hx, List.map_append, List.map_map, ← completed,
      map_action_flatMap_completedWrites htops]
    simp [Function.comp_def]
  rw [ofAutomaton, map_kind_conflictsAt _ _ _ _ rfl (Cells.get?_empty _), hactions]
  exact rejectedKinds_eq_kindsOf _ (nodup_completed.filter _) (shiftCandidates_cases hA)

/-- A shift wants a cell if there is an edge over its symbol, and that is a terminal. -/
theorem shiftCandidates_ne_nil_iff :
    shiftCandidates (ofAugmented A) s x ≠ [] ↔
      (∃ r, (ofAugmented A).Edge s.id x r) ∧ x ∈ A.terminals := by
  constructor
  · intro hne
    obtain ⟨act, hact⟩ := List.exists_mem_of_ne_nil _ hne
    obtain ⟨t, ht, hx, hterm, -⟩ := mem_shiftCandidates.mp hact
    obtain ⟨ht, hsource⟩ := List.mem_filter.mp ht
    exact ⟨⟨t.target, t, ht, by exact_mod_cast of_decide_eq_true hsource, hx, rfl⟩, hterm⟩
  · rintro ⟨⟨r, t, ht, hsource, hx, -⟩, hterm⟩
    have hmove : t ∈ (ofAugmented A).movesFrom s.id :=
      List.mem_filter.mpr ⟨ht, decide_eq_true (by exact_mod_cast hsource)⟩
    exact List.ne_nil_of_mem (mem_shiftCandidates.mpr ⟨t, hmove, hx, hterm, rfl⟩)

end Cell

/-! ### Conflicts of twins -/

section Twins

variable {π : Equiv.Perm ℕ} {A B : Augmented} {s t : State} {x : Symbol}
variable (h : A.Renumbered π B) (hA : 0 < A.productions.size)
include h hA

/-- **Twins complete the same productions**, up to their numbers and their order. -/
theorem completed_perm (hs : s ∈ (ofAugmented A).states) (ht : t ∈ (ofAugmented B).states)
    (hmatch : Matches π s.items t.items) : (completed B t).Perm ((completed A s).map π) := by
  refine (List.perm_ext_iff_of_nodup nodup_completed (nodup_completed.map π.injective)).mpr
    fun p => ?_
  have hmem : ∀ p, π p ∈ completed B t ↔ p ∈ completed A s := fun p => by
    rw [mem_completed (h.size_pos hA) ht, mem_completed hA hs, h.rhs_eq]
    exact hmatch ⟨p, (A.rhs p).length⟩
  constructor
  · intro hp
    rw [← π.apply_symm_apply p, hmem] at hp
    exact List.mem_map.mpr ⟨_, hp, π.apply_symm_apply p⟩
  · intro hp
    obtain ⟨k, hk, rfl⟩ := List.mem_map.mp hp
    exact (hmem k).mpr hk

/-- Of the completed productions of twins as many have a certain left-hand side or not. -/
theorem length_filter_completed (hs : s ∈ (ofAugmented A).states)
    (ht : t ∈ (ofAugmented B).states) (hmatch : Matches π s.items t.items) (P : Symbol → Bool) :
    ((completed B t).filter fun p => P (B.lhs p)).length =
      ((completed A s).filter fun p => P (A.lhs p)).length := by
  rw [((completed_perm h hA hs ht hmatch).filter _).length_eq, List.filter_map, List.length_map]
  simp only [Function.comp_def, h.lhs_eq]

/-- As many shifts want the cells of twins. -/
theorem length_shiftCandidates_eq (hs : s ∈ (ofAugmented A).states)
    (ht : t ∈ (ofAugmented B).states) (hmatch : Matches π s.items t.items) :
    (shiftCandidates (ofAugmented B) t x).length =
      (shiftCandidates (ofAugmented A) s x).length := by
  have hB := h.size_pos hA
  have htwins : Twins π (ofAugmented A) (ofAugmented B) s.id t.id :=
    ⟨s, hs, t, ht, rfl, rfl, hmatch⟩
  have hiff : shiftCandidates (ofAugmented B) t x ≠ [] ↔
      shiftCandidates (ofAugmented A) s x ≠ [] := by
    rw [shiftCandidates_ne_nil_iff, shiftCandidates_ne_nil_iff, h.terminals]
    refine and_congr_left fun _ => ⟨?_, ?_⟩
    · rintro ⟨r, hedge⟩
      obtain ⟨r', hedge', -⟩ := htwins.symm.exists_edge h.symm hB hedge
      exact ⟨r', hedge'⟩
    · rintro ⟨r, hedge⟩
      obtain ⟨r', hedge', -⟩ := htwins.exists_edge h hA hedge
      exact ⟨r', hedge'⟩
  have hle : ∀ C : Augmented, 0 < C.productions.size → ∀ u : State,
      (shiftCandidates (ofAugmented C) u x).length ≤ 1 := by
    intro C hC u
    rcases shiftCandidates_cases (s := u) (x := x) hC with hnil | ⟨r, hone⟩
    · simp [hnil]
    · simp [hone]
  have hleA := hle A hA s
  have hleB := hle B hB t
  rw [← List.length_pos_iff, ← List.length_pos_iff] at hiff
  omega

/-- **The conflicts in the cells of twins have the same kinds.** -/
theorem map_kind_conflictsAt_eq (htops : A.TopsFirst) (htops' : B.TopsFirst)
    (hs : s ∈ (ofAugmented A).states) (ht : t ∈ (ofAugmented B).states)
    (hmatch : Matches π s.items t.items) (hx : x ∈ A.lookaheads) :
    ((ofAutomaton (ofAugmented A)).conflictsAt ⟨s.id, x⟩).map Conflict.kind =
      ((ofAutomaton (ofAugmented B)).conflictsAt ⟨t.id, x⟩).map Conflict.kind := by
  have haccept : acceptances B t x = acceptances A s x := by
    rw [acceptances, acceptances, h.top, length_filter_completed h hA hs ht hmatch (· = A.top)]
  have hreduce : (reducible B t).length = (reducible A s).length := by
    rw [reducible, reducible, h.top, length_filter_completed h hA hs ht hmatch (· ≠ A.top)]
  rw [map_kind_conflictsAt_ofAugmented hA htops hs hx,
    map_kind_conflictsAt_ofAugmented (h.size_pos hA) htops' ht (h.lookaheads_eq ▸ hx), haccept,
    hreduce, length_shiftCandidates_eq h hA hs ht hmatch]

end Twins

/-! ### All conflicts -/

/-- The conflicts of a table are counted state by state and symbol by symbol. -/
theorem countP_conflicts {A : Augmented} (hA : 0 < A.productions.size) (P : Conflict → Bool) :
    (ofAutomaton (ofAugmented A)).conflicts.toList.countP P =
      ((ofAugmented A).states.map fun s => (A.lookaheads.map fun x =>
        ((ofAutomaton (ofAugmented A)).conflictsAt ⟨s.id, x⟩).countP P).sum).sum := by
  let cells : List Cell :=
    (ofAugmented A).states.flatMap fun s => A.lookaheads.map fun x => ⟨s.id, x⟩
  have hcells : cells.Nodup := by
    refine List.nodup_flatMap.mpr ⟨fun s _ => ?_, (List.pairwise_map.mp (nodup_map_id hA)).imp ?_⟩
    · exact (nodup_lookaheads A).map fun x y h => congrArg Cell.symbol h
    · -- the cells of different states are different
      intro s t hne c hs ht
      obtain ⟨x, -, rfl⟩ := List.mem_map.mp hs
      obtain ⟨y, -, hc⟩ := List.mem_map.mp ht
      have hid : (t.id : ℤ) = s.id := congrArg Cell.state hc
      exact hne (by exact_mod_cast hid.symm)
  have hmem : ∀ k ∈ (ofAutomaton (ofAugmented A)).conflicts.toList,
      (⟨k.state, k.symbol⟩ : Cell) ∈ cells := by
    intro k hk
    obtain ⟨-, ⟨s, hs, hid⟩, hx⟩ := isActionCell_of_mem_conflicts hA (Array.mem_toList_iff.mp hk)
    refine List.mem_flatMap.mpr ⟨s, hs, List.mem_map.mpr ⟨k.symbol, mem_lookaheads.mpr hx, ?_⟩⟩
    rw [hid]
  rw [countP_eq_sum_countP_filter P (fun k => (⟨k.state, k.symbol⟩ : Cell)) hcells hmem,
    List.map_flatMap, List.flatMap, List.sum_flatten, List.map_map]
  simp only [Function.comp_def, List.map_map]
  rfl

section Twins

variable {π : Equiv.Perm ℕ} {A B : Augmented}
variable (h : A.Renumbered π B) (hA : 0 < A.productions.size) (htops : A.TopsFirst)
  (htops' : B.TopsFirst)
include h hA htops htops'

/-- **Both tables have as many conflicts of each kind.** -/
theorem countP_kind_eq (P : ConflictKind → Bool) :
    (ofAutomaton (ofAugmented A)).conflicts.toList.countP (fun k => P k.kind) =
      (ofAutomaton (ofAugmented B)).conflicts.toList.countP fun k => P k.kind := by
  rw [countP_conflicts hA, countP_conflicts (h.size_pos hA), h.lookaheads_eq]
  refine sum_states_eq h hA fun s hs t ht hmatch => ?_
  refine congrArg List.sum (List.map_congr_left fun x hx => ?_)
  have hkinds := congrArg (List.countP P)
    (map_kind_conflictsAt_eq h hA htops htops' hs ht hmatch hx)
  rwa [List.countP_map, List.countP_map] at hkinds

/-- **Both tables have no conflicts, or neither.** -/
theorem isLR0_eq :
    (ofAutomaton (ofAugmented A)).isLR0 = (ofAutomaton (ofAugmented B)).isLR0 := by
  have hsize := countP_kind_eq h hA htops htops' fun _ => true
  simp only [List.countP_true, Array.length_toList] at hsize
  rw [isLR0, isLR0, Array.isEmpty, Array.isEmpty, hsize]

end Twins

/-! ### Actions of twins -/

/-- **Twin actions**: both shift to twins, reduce the same production, or accept. -/
inductive TwinActions (π : Equiv.Perm ℕ) (m m' : Automaton) : Action → Action → Prop
  /-- The states to go to are twins. -/
  | shift {r r' : ℤ} : Twins π m m' r r' → TwinActions π m m' (.shift r) (.shift r')
  /-- The productions have numbers that go with each other. -/
  | reduce {p : ℕ} : TwinActions π m m' (.reduce p) (.reduce (π p : ℕ))
  /-- Both accept. -/
  | accept : TwinActions π m m' .accept .accept

section TwinActions

variable {π : Equiv.Perm ℕ} {A B : Augmented} {q r : ℤ} {x : Symbol} {act : Action}
variable (h : A.Renumbered π B) (hA : 0 < A.productions.size)
include h hA

/-- **What is a reason in a state is one in its twin**, for the twin of the action. -/
theorem Justified.exists_twin (hreason : Justified (ofAugmented A) q x act)
    (htwins : Twins π (ofAugmented A) (ofAugmented B) q r) :
    ∃ act', Justified (ofAugmented B) r x act' ∧
      TwinActions π (ofAugmented A) (ofAugmented B) act act' := by
  -- the completed item of a production goes with that of the other number
  have hholds : ∀ p : ℕ, (ofAugmented A).Holds q ⟨p, (A.rhs p).length⟩ →
      (ofAugmented B).Holds r ⟨π p, (B.rhs (π p)).length⟩ := fun p hheld => by
    rw [h.rhs_eq]
    exact (htwins.holds_relabel h hA).mpr hheld
  cases hreason with
  | shift hedge hterm =>
    obtain ⟨r', hedge', htwins'⟩ := htwins.exists_edge h hA hedge
    exact ⟨_, .shift hedge' (h.terminals ▸ hterm), .shift htwins'⟩
  | @reduce p hheld htop hx =>
    refine ⟨_, .reduce (hholds p hheld) ?_ (h.lookaheads_eq ▸ hx), .reduce⟩
    exact (h.lhs_eq p).trans_ne (htop.trans_eq h.top.symm)
  | @accept p hheld htop hx =>
    exact ⟨_, .accept (hholds p hheld) ((h.lhs_eq p).trans (htop.trans h.top.symm)) hx, .accept⟩

/-- **In twins the tables have twin actions**, if there are no conflicts. -/
theorem rel_get?_action (hlr0 : (ofAutomaton (ofAugmented A)).isLR0)
    (hlr0' : (ofAutomaton (ofAugmented B)).isLR0)
    (htwins : Twins π (ofAugmented A) (ofAugmented B) q r) :
    Option.Rel (TwinActions π (ofAugmented A) (ofAugmented B))
      ((ofAutomaton (ofAugmented A)).action.get? ⟨q, x⟩)
      ((ofAutomaton (ofAugmented B)).action.get? ⟨r, x⟩) := by
  have hB := h.size_pos hA
  cases hget : (ofAutomaton (ofAugmented A)).action.get? ⟨q, x⟩ with
  | some act =>
    obtain ⟨act', hreason, hactions⟩ := (justified_of_get? hA hget).exists_twin h hA htwins
    rw [get?_of_justified hB hlr0' hreason]
    exact .some hactions
  | none =>
    cases hget' : (ofAutomaton (ofAugmented B)).action.get? ⟨r, x⟩ with
    | none => exact .none
    | some act' =>
      -- the reason for an action in the twin would be one here
      obtain ⟨act, hreason, -⟩ :=
        (justified_of_get? hB hget').exists_twin h.symm hB htwins.symm
      rw [get?_of_justified hA hlr0 hreason] at hget
      exact absurd hget (by simp)

/-- **In twins the tables have twins to go to.** -/
theorem rel_get?_goto (htwins : Twins π (ofAugmented A) (ofAugmented B) q r) :
    Option.Rel (Twins π (ofAugmented A) (ofAugmented B))
      ((ofAutomaton (ofAugmented A)).goto.get? ⟨q, x⟩)
      ((ofAutomaton (ofAugmented B)).goto.get? ⟨r, x⟩) := by
  have hB := h.size_pos hA
  cases hget : (ofAutomaton (ofAugmented A)).goto.get? ⟨q, x⟩ with
  | some q' =>
    obtain ⟨hedge, hterm, htop⟩ := (get?_goto_iff hA).mp hget
    obtain ⟨r', hedge', htwins'⟩ := htwins.exists_edge h hA hedge
    rw [(get?_goto_iff hB).mpr ⟨hedge', h.terminals ▸ hterm, h.top ▸ htop⟩]
    exact .some htwins'
  | none =>
    cases hget' : (ofAutomaton (ofAugmented B)).goto.get? ⟨r, x⟩ with
    | none => exact .none
    | some r' =>
      obtain ⟨hedge', hterm, htop⟩ := (get?_goto_iff hB).mp hget'
      obtain ⟨q', hedge, -⟩ := htwins.symm.exists_edge h.symm hB hedge'
      rw [(get?_goto_iff hA).mpr ⟨hedge, h.terminals ▸ hterm, h.top ▸ htop⟩] at hget
      exact absurd hget (by simp)

end TwinActions

end Table

end ShiftReduce
