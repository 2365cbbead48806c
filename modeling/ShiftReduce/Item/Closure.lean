import ShiftReduce.Item.Basic

/-!
# Closure and goto

An item whose dot stands before a non-terminal hopes for any of its productions, so it *asks for*
the items of those productions with the dot at the start. The closure of some items adds what
they ask for until nothing new is asked for; the goto of an item set over a symbol moves the dot
over that symbol wherever it can and closes the result.

The closure keeps the items found and those of them that have not been asked yet. It ends
because every round but finitely many adds a production that was missing
(`Augmented.missing_append_lt`).
-/

namespace ShiftReduce.Augmented

/-- The numbers of the productions of a symbol, in order. -/
def productionsOf (g : Augmented) (s : Symbol) : List Nat :=
  (g.productions.toList.filter (·.lhs = s)).map (·.id.toNat)

/-- The items that an item asks for. -/
def asksFor (g : Augmented) (i : Item) : List Item :=
  match g.nextSymbol i with
  | none => []
  | some s => if s ∈ g.nonTerminals then (g.productionsOf s).map fun p => ⟨p, 0⟩ else []

/-! ### What is still missing -/

theorem mem_productionsOf {g : Augmented} {s : Symbol} {p : Nat} :
    p ∈ g.productionsOf s ↔ ∃ production, g.productions[p]? = some production ∧
      production.lhs = s := by
  simp only [productionsOf, List.mem_map, List.mem_filter, decide_eq_true_eq]
  constructor
  · rintro ⟨production, ⟨hmem, hlhs⟩, rfl⟩
    obtain ⟨k, hk⟩ := List.mem_iff_getElem?.1 hmem
    have hk' : g.productions[k]? = some production := by simpa using hk
    -- the number of a production is its place
    rw [g.id_eq k production hk']
    exact ⟨production, hk', hlhs⟩
  · rintro ⟨production, hp, hlhs⟩
    have hmem := List.mem_of_getElem? ((Array.getElem?_toList).trans hp)
    exact ⟨production, ⟨hmem, hlhs⟩, by rw [g.id_eq p production hp]; rfl⟩

theorem length_asksFor_le (g : Augmented) (i : Item) :
    (g.asksFor i).length ≤ g.productions.size := by
  unfold asksFor
  split
  · simp
  · split
    · simp only [productionsOf, List.length_map]
      exact Nat.le_trans (List.length_filter_le _ _) (by simp)
    · simp

theorem mem_asksFor {g : Augmented} {i j : Item} (h : j ∈ g.asksFor i) :
    j.dot = 0 ∧ j.production < g.productions.size := by
  unfold asksFor at h
  split at h
  · simp at h
  · split at h
    · obtain ⟨p, hp, rfl⟩ := List.mem_map.1 h
      obtain ⟨production, hget, -⟩ := mem_productionsOf.1 hp
      exact ⟨rfl, (Array.getElem?_eq_some_iff.1 hget).1⟩
    · simp at h

/-- How many productions have no item with the dot at the start among those found. -/
def missing (g : Augmented) (found : List Item) : Nat :=
  (List.range g.productions.size).countP fun p => ⟨p, 0⟩ ∉ found

theorem countP_lt_countP {α : Type} {p q : α → Bool} {l : List α} (hpq : ∀ x, p x → q x)
    {a : α} (ha : a ∈ l) (hq : q a) (hp : ¬p a) : l.countP p < l.countP q := by
  induction l with
  | nil => simp at ha
  | cons b l ih =>
    have hle : l.countP p ≤ l.countP q := List.countP_mono_left fun x _ => hpq x
    simp only [List.countP_cons]
    rcases List.mem_cons.1 ha with rfl | ha
    · simp only [hq, hp, if_true]
      simp only [Bool.false_eq_true, if_false]
      omega
    · have := ih ha
      have hb := hpq b
      split <;> split <;> first | omega | simp_all

/-- Finding an item with the dot at the start leaves fewer productions missing. -/
theorem missing_append_lt {g : Augmented} {found fresh : List Item} {j : Item}
    (hj : j ∈ fresh) (hdot : j.dot = 0) (hlt : j.production < g.productions.size)
    (hnew : j ∉ found) : g.missing (found ++ fresh) < g.missing found := by
  obtain ⟨p, d⟩ := j
  subst hdot
  refine countP_lt_countP (a := p) (fun x hx => ?_) (List.mem_range.2 hlt) ?_ ?_
  · simp only [decide_eq_true_eq, List.mem_append, not_or] at hx ⊢
    exact hx.1
  · simpa using hnew
  · simpa using fun _ => hj

/-- The items that an item asks for and that are not found yet. -/
def newlyAsked (g : Augmented) (found : List Item) (i : Item) : List Item :=
  (g.asksFor i).filter (· ∉ found)

/-- The quantity that every round of the closure lowers: a round adds to the pending items no
more than there are productions, and only if fewer productions are missing after it. -/
def work (g : Augmented) (found pending : List Item) : Nat :=
  g.missing found * (g.productions.size + 1) + pending.length

theorem work_lt (g : Augmented) (found : List Item) (i : Item) (rest : List Item) :
    g.work (found ++ g.newlyAsked found i) (rest ++ g.newlyAsked found i)
      < g.work found (i :: rest) := by
  have hlen : (g.newlyAsked found i).length ≤ g.productions.size :=
    Nat.le_trans (List.length_filter_le _ _) (g.length_asksFor_le i)
  simp only [work, List.length_append, List.length_cons]
  by_cases hne : g.newlyAsked found i = []
  · simp [hne]
  · obtain ⟨j, hj⟩ := List.exists_mem_of_ne_nil _ hne
    have hj' := List.mem_filter.1 hj
    have hask := mem_asksFor hj'.1
    have hlt := missing_append_lt hj hask.1 hask.2 (by simpa using hj'.2)
    have hmul := Nat.mul_le_mul_right (g.productions.size + 1) hlt
    rw [Nat.succ_mul] at hmul
    omega

/-! ### The closure -/

/-- Adds to the items found what the pending ones ask for, and what the added ones ask for. -/
def saturate (g : Augmented) (found : List Item) : (pending : List Item) → List Item
  | [] => found
  | i :: rest =>
    match h : g.newlyAsked found i with
    | [] =>
      have : g.work found rest < g.work found (i :: rest) := by
        simpa only [h, List.append_nil] using g.work_lt found i rest
      saturate g found rest
    | j :: fresh =>
      have : g.work (found ++ j :: fresh) (rest ++ j :: fresh) < g.work found (i :: rest) := by
        simpa only [h] using g.work_lt found i rest
      saturate g (found ++ j :: fresh) (rest ++ j :: fresh)
termination_by pending => g.work found pending

@[simp] theorem saturate_nil (g : Augmented) (found : List Item) : g.saturate found [] = found := by
  rw [saturate]

/-- The closure of some items, in ascending order. -/
def closure (g : Augmented) (items : List Item) : List Item :=
  Ascending.ofList (g.saturate items items)

/-- The items with the dot moved over a symbol, where it stands before that symbol. -/
def moved (g : Augmented) (items : List Item) (s : Symbol) : List Item :=
  (items.filter fun i => g.nextSymbol i = some s).map Item.advance

/-- The goto of an item set over a symbol, empty if no dot stands before the symbol. -/
def goto (g : Augmented) (items : List Item) (s : Symbol) : List Item :=
  g.closure (g.moved items s)

/-- The symbols behind a dot, each once, in order of first occurrence. -/
def symbolsAfterDot (g : Augmented) (items : List Item) : List Symbol :=
  (items.filterMap g.nextSymbol).eraseDups

end ShiftReduce.Augmented
