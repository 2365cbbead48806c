import ShiftReduce.Automaton.Builder
import ShiftReduce.Proofs.Automaton.Canonical

/-!
# What a builder stores

A builder knows item sets by a text, and it knows how many states it has by counting. That this
identifies item sets exactly has two sides. Two lists have the same signature exactly if they have
the same items (`ShiftReduce.Item.signature_eq_iff`). And the index leads from signatures to the
states that carry them, and to nothing else (`ShiftReduce.Builder.IsStore`), whatever is registered
and however often a build begins anew.

So what is stored can be told from the calls alone: of the lists of items that were registered since
the last build began, by the build itself or after it, the first with each set of items
(`ShiftReduce.Builder.Records`, `ShiftReduce.Builder.firstOfEach`). A build follows the construction
of the canonical collection step by step (`ShiftReduce.Builder.Follows`): the states that wait are
those of the collection from some number on. So it comes to an end, and ends with the automaton of
the grammar.
-/

namespace ShiftReduce

/-- Two lists of the same items, in whatever order and however often. -/
def Item.SameItems (items others : List Item) : Prop :=
  ∀ i, i ∈ items ↔ i ∈ others

instance (items others : List Item) : Decidable (Item.SameItems items others) :=
  decidable_of_iff (items ⊆ others ∧ others ⊆ items)
    ⟨fun h _ => ⟨fun hi => h.1 hi, fun hi => h.2 hi⟩,
      fun h => ⟨fun i => (h i).mp, fun i => (h i).mpr⟩⟩

namespace Builder

open Item (SameItems)

variable {A : Augmented} {b : Builder} {c : Collection} {e : Exploration} {s : State} {X : Symbol}
  {items : List Item} {past : List (List Item)} {k : ℕ}

/-! ### The store and its index -/

/-- The collection of what a builder stores. -/
def collection (b : Builder) : Collection :=
  ⟨b.states, b.transitions⟩

/-- **A store**: its states are numbered by their places, and the index leads from a signature to
the states that carry it. -/
structure IsStore (b : Builder) : Prop where
  /-- The next number is the number of states. -/
  nextId_eq : b.nextId = b.states.size
  /-- A state is numbered by its place. -/
  id_eq : ∀ (k : ℕ) (s : State), b.states[k]? = some s → s.id = k
  /-- A state carries the signature of its items. -/
  signature_eq : ∀ (k : ℕ) (s : State), b.states[k]? = some s → s.signature = Item.signature s.items
  /-- The index has the numbers of the states by their signatures. -/
  index_iff : ∀ (σ : String) (k : ℕ), b.index[σ]? = some k ↔
    ∃ s, b.states[k]? = some s ∧ s.signature = σ

/-- A builder without states is a store. -/
theorem isStore_reset (b : Builder) : b.reset.IsStore := by
  refine ⟨rfl, fun k s hs => ?_, fun k s hs => ?_, fun σ k => ?_⟩
  · simp [reset] at hs
  · simp [reset] at hs
  · simp [reset]

/-- The states after one more has been stored. -/
theorem getElem?_store {s' : State} :
    (b.store s).states[k]? = some s' ↔
      b.states[k]? = some s' ∨ k = b.states.size ∧ s' = s := by
  rw [store, Array.getElem?_push]
  split
  · next hk => simp [hk, eq_comm]
  · next hk => simp [hk]

namespace IsStore

/-- A state has the signature of some items exactly if its items are the same. -/
theorem signature_eq_iff (h : b.IsStore) (hs : s ∈ b.states) :
    s.signature = Item.signature items ↔ SameItems s.items items := by
  obtain ⟨k, hk⟩ := Array.mem_iff_getElem?.mp hs
  rw [h.signature_eq k s hk]
  exact Item.signature_eq_iff

/-- The index leads from the signature of a state to its number. -/
theorem getElem?_index (h : b.IsStore) (hs : b.states[k]? = some s) :
    b.index[s.signature]? = some k :=
  (h.index_iff _ k).mpr ⟨s, hs, rfl⟩

/-- Different states have different signatures. -/
theorem signature_injective (h : b.IsStore) {j : ℕ} {s' : State} (hs : b.states[j]? = some s)
    (hs' : b.states[k]? = some s') (hsame : s.signature = s'.signature) : j = k := by
  have hj := h.getElem?_index hs
  rw [hsame, h.getElem?_index hs'] at hj
  exact (Option.some.inj hj).symm

/-- **Registering the items of a state finds it.** -/
theorem register_of_mem (h : b.IsStore) (hs : s ∈ b.states) (hsame : SameItems s.items items) :
    b.register items = some ⟨b, s, false⟩ := by
  obtain ⟨k, hk⟩ := Array.mem_iff_getElem?.mp hs
  have hindex : b.index[Item.signature items]? = some k := by
    rw [← (h.signature_eq_iff hs).mpr hsame]
    exact h.getElem?_index hk
  simp only [register, hindex, hk, Option.map_some]

/-- The index has nothing for items that no state has. -/
theorem getElem?_index_of_new (h : b.IsStore)
    (hnew : ∀ s ∈ b.states, ¬SameItems s.items items) :
    b.index[Item.signature items]? = none := by
  refine Option.eq_none_iff_forall_ne_some.mpr fun k hk => ?_
  obtain ⟨s, hs, hsignature⟩ := (h.index_iff _ k).mp hk
  have hmem := Array.mem_of_getElem? hs
  exact hnew s hmem ((h.signature_eq_iff hmem).mp hsignature)

/-- **Registering items that no state has makes a state.** -/
theorem register_of_new (h : b.IsStore) (hnew : ∀ s ∈ b.states, ¬SameItems s.items items) :
    b.register items = some ⟨b.store (b.nextState items), b.nextState items, true⟩ := by
  simp only [register, h.getElem?_index_of_new hnew]

/-- A collection, which has no index, searches its states and finds the same. -/
theorem find?_of_mem (h : b.IsStore) (hs : s ∈ b.states) (hsame : SameItems s.items items) :
    b.collection.find? items = some s := by
  have hsignature := (h.signature_eq_iff hs).mpr hsame
  obtain ⟨k, hk⟩ := Array.mem_iff_getElem?.mp hs
  obtain ⟨hlt, hget⟩ := Array.getElem?_eq_some_iff.mp hk
  refine Array.find?_eq_some_iff_getElem.mpr ⟨decide_eq_true hsignature, k, hlt, hget,
    fun j hj => ?_⟩
  have hne : b.states[j].signature ≠ Item.signature items := fun he =>
    hj.ne (h.signature_injective (Array.getElem?_eq_getElem (hj.trans hlt)) hk
      (he.trans hsignature.symm))
  exact (Bool.not_eq_true' _).mpr (decide_eq_false hne)

theorem find?_of_new (h : b.IsStore) (hnew : ∀ s ∈ b.states, ¬SameItems s.items items) :
    b.collection.find? items = none := by
  refine Array.find?_eq_none.mpr fun s hs hfound => ?_
  exact hnew s hs ((h.signature_eq_iff hs).mp (of_decide_eq_true hfound))

/-- **Storing keeps a store**, if no state has the items yet. -/
theorem store (h : b.IsStore) (hnew : ∀ s ∈ b.states, ¬SameItems s.items items) :
    (b.store (b.nextState items)).IsStore := by
  refine ⟨?_, fun k s hs => ?_, fun k s hs => ?_, fun σ k => ?_⟩
  · simp [Builder.store, h.nextId_eq]
  · rcases getElem?_store.mp hs with hs | ⟨rfl, rfl⟩
    · exact h.id_eq k s hs
    · exact h.nextId_eq
  · rcases getElem?_store.mp hs with hs | ⟨rfl, rfl⟩
    · exact h.signature_eq k s hs
    · rfl
  · have hinsert : (b.store (b.nextState items)).index[σ]? =
        if Item.signature items = σ then some b.states.size else b.index[σ]? := by
      simp only [Builder.store, nextState, Std.TreeMap.getElem?_insert,
        Std.LawfulEqCmp.compare_eq_iff_eq, h.nextId_eq]
    rw [hinsert]
    simp only [getElem?_store]
    split
    · next hσ =>
      subst hσ
      constructor
      · intro hk
        obtain rfl : b.states.size = k := Option.some.inj hk
        exact ⟨_, Or.inr ⟨rfl, rfl⟩, rfl⟩
      · rintro ⟨s, hs | ⟨rfl, -⟩, hsignature⟩
        · have hindex := (h.index_iff _ k).mpr ⟨s, hs, hsignature⟩
          rw [h.getElem?_index_of_new hnew] at hindex
          cases hindex
        · rfl
    · next hσ =>
      rw [h.index_iff]
      refine exists_congr fun s => ?_
      constructor
      · rintro ⟨hs, hsignature⟩
        exact ⟨Or.inl hs, hsignature⟩
      · rintro ⟨hs | ⟨-, rfl⟩, hsignature⟩
        · exact ⟨hs, hsignature⟩
        · exact absurd hsignature hσ

end IsStore

/-! ### What has been registered -/

/-- Adds a list of items, unless one of the same items is there. -/
def addNew (kept : List (List Item)) (items : List Item) : List (List Item) :=
  if ∃ l ∈ kept, SameItems l items then kept else kept ++ [items]

/-- **The first of each**: of several lists of the same items the first alone. -/
def firstOfEach (past : List (List Item)) : List (List Item) :=
  past.foldl addNew []

/-- **A builder records some lists of items**, if it is a store of the first of each. -/
structure Records (past : List (List Item)) (b : Builder) : Prop extends b.IsStore where
  /-- The items of the states are the first of each list. -/
  items_eq : b.states.toList.map (·.items) = firstOfEach past

theorem records_reset (b : Builder) : Records [] b.reset :=
  ⟨isStore_reset b, rfl⟩

/-- **Registering items** adds them to the lists that are recorded, and does what registering in a
collection does, which knows no index. A state that is made comes to the end. -/
theorem Records.register (h : Records past b) (items : List Item) :
    ∃ r, b.register items = some r ∧ Records (past ++ [items]) r.builder ∧
      b.collection.register items = (r.builder.collection, r.state) ∧
      r.builder.states.toList = b.states.toList ++ if r.isNew then [r.state] else [] := by
  have hfirst : firstOfEach (past ++ [items]) = addNew (b.states.toList.map (·.items)) items := by
    rw [h.items_eq, firstOfEach, List.foldl_append]
    rfl
  by_cases hfound : ∃ s ∈ b.states, SameItems s.items items
  · obtain ⟨s, hs, hsame⟩ := hfound
    refine ⟨_, h.register_of_mem hs hsame, ⟨h.toIsStore, ?_⟩, ?_, by simp⟩
    · rw [hfirst, addNew, if_pos]
      exact ⟨s.items, List.mem_map_of_mem (Array.mem_toList_iff.mpr hs), hsame⟩
    · rw [Collection.register, h.find?_of_mem hs hsame]
  · have hnew : ∀ s ∈ b.states, ¬SameItems s.items items := fun s hs hsame =>
      hfound ⟨s, hs, hsame⟩
    refine ⟨_, h.register_of_new hnew, ⟨h.store hnew, ?_⟩, ?_, by simp [store]⟩
    · rw [hfirst, addNew, if_neg]
      · simp [store, nextState]
      · rintro ⟨l, hl, hsame⟩
        obtain ⟨s, hs, rfl⟩ := List.mem_map.mp hl
        exact hnew s (Array.mem_toList_iff.mp hs) hsame
    · rw [Collection.register, h.find?_of_new hnew, store, nextState, h.nextId_eq]
      rfl

theorem Records.connect (h : Records past b) (t : Transition) : Records past (b.connect t) :=
  ⟨⟨h.nextId_eq, h.id_eq, h.signature_eq, h.index_iff⟩, h.items_eq⟩

/-! ### Building the canonical collection -/

/-- **An exploration follows a collection**: what it has registered is recorded, its builder stores
the collection, and the states that wait are those from number `k` on. -/
structure Follows (past : List (List Item)) (c : Collection) (k : ℕ) (e : Exploration) : Prop where
  /-- The builder records what has been registered. -/
  records : Records past e.builder
  /-- The builder stores the collection. -/
  collection_eq : e.builder.collection = c
  /-- The states below `k` do not wait. -/
  le_size : k ≤ c.states.size
  /-- The states from number `k` on wait. -/
  waiting_eq : e.waiting = c.states.toList.drop k

/-- The lists of items that a visit to a state registers. -/
def gotos (A : Augmented) (s : State) : List (List Item) :=
  (A.symbolsAfterDot s.items).map (A.goto s.items)

/-- **One goto of a state** is registered as in the collection. -/
theorem Follows.move (h : Follows past c k e) (hX : X ∈ A.symbolsAfterDot s.items) :
    ∃ e', Builder.move A s e X = some e' ∧
      Follows (past ++ [A.goto s.items X]) (c.move A s X) k e' := by
  obtain ⟨r, hregister, hrecords, hcollection, hstates⟩ := h.records.register (A.goto s.items X)
  have hne : A.goto s.items X ≠ [] := Augmented.goto_ne_nil_iff.mpr hX
  have hmove : c.move A s X = r.builder.collection.connect ⟨s.id, X, r.state.id⟩ := by
    rw [Collection.move, ← h.collection_eq, hcollection]
  have hstates' : (c.move A s X).states.toList =
      c.states.toList ++ if r.isNew then [r.state] else [] := by
    rw [hmove, ← h.collection_eq]
    exact hstates
  have hstep : Builder.move A s e X = some ⟨r.builder.connect ⟨s.id, X, r.state.id⟩,
      e.waiting ++ if r.isNew then [r.state] else []⟩ := by
    simp only [Builder.move, if_neg hne, hregister, Option.map_some]
  refine ⟨_, hstep, ⟨hrecords.connect _, hmove.symm, ?_, ?_⟩⟩
  · have hle := h.le_size
    rw [← Array.length_toList] at hle ⊢
    rw [hstates', List.length_append]
    omega
  · rw [hstates', List.drop_append_of_le_length (by simpa using h.le_size), h.waiting_eq]

/-- Some gotos of a state, one after the other. -/
theorem Follows.foldlM_move (h : Follows past c k e) {Xs : List Symbol}
    (hXs : ∀ X ∈ Xs, X ∈ A.symbolsAfterDot s.items) :
    ∃ e', Xs.foldlM (Builder.move A s) e = some e' ∧
      Follows (past ++ Xs.map (A.goto s.items)) (Xs.foldl (Collection.move A s) c) k e' := by
  induction Xs generalizing past c e with
  | nil => exact ⟨e, rfl, by simpa using h⟩
  | cons X Xs ih =>
    obtain ⟨e', hmove, h'⟩ := h.move (hXs X (by simp))
    obtain ⟨e'', hmoves, h''⟩ := ih h' fun Y hY => hXs Y (by simp [hY])
    refine ⟨e'', ?_, by simpa using h''⟩
    rw [List.foldlM_cons, hmove]
    exact hmoves

/-- **A visit to the first state that waits** is the next visit in the collection. -/
theorem Follows.visit {waiting : List State} (h : Follows past c k ⟨b, s :: waiting⟩) :
    c.states[k]? = some s ∧ ∃ e', Builder.visit A ⟨b, waiting⟩ s = some e' ∧
      Follows (past ++ gotos A s) (c.visit A s) (k + 1) e' := by
  have hdrop : c.states.toList.drop k = s :: waiting := h.waiting_eq.symm
  have hs : c.states[k]? = some s := by
    rw [← Array.getElem?_toList, ← List.head?_drop, hdrop, List.head?_cons]
  have hwaiting : waiting = c.states.toList.drop (k + 1) := by
    rw [← List.tail_drop, hdrop, List.tail_cons]
  have hstart : Follows past c (k + 1) ⟨b, waiting⟩ :=
    ⟨h.records, h.collection_eq, (Array.getElem?_eq_some_iff.mp hs).1, hwaiting⟩
  exact ⟨hs, hstart.foldlM_move fun _ hX => hX⟩

/-- When no state waits, the exploration of the collection has come to its end, too. -/
theorem Follows.explore_nil (h : Follows past c k ⟨b, []⟩) (rounds : ℕ) :
    b.collection = Collection.explore A rounds k c ∧ c.Extends b.collection ∧
      Records (past ++ (b.states.toList.drop k).flatMap (gotos A)) b := by
  have hdrop : c.states.toList.drop k = [] := h.waiting_eq.symm
  have hnone : c.states[k]? = none := by
    rw [← Array.getElem?_toList, ← List.head?_drop, hdrop, List.head?_nil]
  have hstates : b.states = c.states := congrArg Collection.states h.collection_eq
  have hcollection : b.collection = c := h.collection_eq
  rw [hcollection, hstates, hdrop, List.flatMap_nil, List.append_nil]
  refine ⟨?_, Collection.Extends.refl c, h.records⟩
  cases rounds with
  | zero => rfl
  | succ rounds => rw [Collection.explore, hnone]

/-- **An exploration comes to an end** if it may visit as many states as there may be sets of items,
and it makes the same collection. -/
theorem Follows.explore (h : Follows past c k e) (hc : c.Sound A) (hA : 0 < A.productions.size)
    {rounds : ℕ} (hrounds : 2 ^ A.items.length ≤ rounds + k) :
    ∃ b', explore A rounds e = some b' ∧ b'.collection = Collection.explore A rounds k c ∧
      c.Extends b'.collection ∧
      Records (past ++ (b'.states.toList.drop k).flatMap (gotos A)) b' := by
  induction rounds generalizing past c k e with
  | zero =>
    obtain ⟨b, waiting⟩ := e
    have hsize := hc.size_le hA
    obtain rfl : waiting = [] :=
      h.waiting_eq.trans (List.drop_of_length_le (by rw [Array.length_toList]; omega))
    exact ⟨b, rfl, h.explore_nil 0⟩
  | succ rounds ih =>
    obtain ⟨b, _ | ⟨s, waiting⟩⟩ := e
    · exact ⟨b, rfl, h.explore_nil (rounds + 1)⟩
    · obtain ⟨hs, e', hvisit, h'⟩ := h.visit (A := A)
      have hs' : c.states[s.id]? = some s := by rw [hc.id_eq k s hs]; exact hs
      obtain ⟨hsound, hext, -⟩ := hc.visit hs'
      obtain ⟨b', hexplore, hcollection, hext', hrecords⟩ := ih h' hsound (by omega)
      refine ⟨b', ?_, ?_, hext.trans hext', ?_⟩
      · rw [Builder.explore, hvisit]
        exact hexplore
      · rw [hcollection, Collection.explore, hs]
      · -- the state that was visited is the first of those from number `k` on
        have hlast : b'.states.toList[k]? = some s := by
          rw [Array.getElem?_toList]
          exact (hext.trans hext').getElem? hs
        obtain ⟨hlt, hget⟩ := List.getElem?_eq_some_iff.mp hlast
        rw [List.drop_eq_getElem_cons hlt, hget, List.flatMap_cons, ← List.append_assoc]
        exact hrecords

/-- The lists of items that a build registers: the closure to begin with, and what the visits to all
states register. -/
def built (A : Augmented) : List (List Item) :=
  A.closure [⟨0, 0⟩] :: (Automaton.ofAugmented A).states.flatMap (gotos A)

/-- **A build makes the automaton of the grammar**, whatever was stored before. -/
theorem exists_build (hA : 0 < A.productions.size) (b : Builder) :
    ∃ b', build A b = some b' ∧ b'.automaton A = Automaton.ofAugmented A ∧
      Records (built A) b' := by
  obtain ⟨r, hregister, hrecords, hcollection, -⟩ :=
    (records_reset b).register (A.closure [⟨0, 0⟩])
  have hinitial : r.builder.collection = Collection.initial A :=
    (congrArg Prod.fst hcollection).symm
  have hstate : [r.state] = (Collection.initial A).states.toList := by
    have hs : Collection.nextState {} (A.closure [⟨0, 0⟩]) = r.state :=
      congrArg Prod.snd hcollection
    rw [← hs]
    rfl
  have hfollows : Follows [A.closure [⟨0, 0⟩]] (Collection.initial A) 0 ⟨r.builder, [r.state]⟩ :=
    ⟨hrecords, hinitial, Nat.zero_le _, hstate⟩
  obtain ⟨b', hexplore, hcanonical, -, hbuilt⟩ :=
    hfollows.explore (Collection.sound_initial A) hA (Nat.le_refl (2 ^ A.items.length))
  have hautomaton : b'.automaton A = Automaton.ofAugmented A :=
    congrArg (fun c : Collection =>
      (⟨A, c.states.toList, c.transitions.toList, Automaton.start⟩ : Automaton)) hcanonical
  refine ⟨b', ?_, hautomaton, ?_⟩
  · rw [build, hregister]
    exact hexplore
  · rw [built, ← hautomaton]
    exact hbuilt

/-! ### Any calls -/

/-- What a call makes of the lists of items that have been registered since the last build began. -/
def registration (A : Augmented) (past : List (List Item)) : Call → List (List Item)
  | .register items => past ++ [items]
  | .build => built A

/-- **The lists of items that have been registered since the last build began**, in order. -/
def registeredSince (A : Augmented) (calls : List Call) : List (List Item) :=
  calls.foldl (registration A) []

/-- **One call** has a result, which records one list more or those of a build. -/
theorem Records.call (h : Records past b) (hA : 0 < A.productions.size) (call : Call) :
    ∃ b', b.call A call = some b' ∧ Records (registration A past call) b' := by
  cases call with
  | register items =>
    obtain ⟨r, hregister, hrecords, -⟩ := h.register items
    exact ⟨r.builder, by rw [Builder.call, hregister, Option.map_some], hrecords⟩
  | build =>
    obtain ⟨b', hbuild, -, hrecords⟩ := exists_build hA b
    exact ⟨b', hbuild, hrecords⟩

/-- **After any calls** there is a builder, and it records what has been registered since the last
build began. -/
theorem exists_afterCalls (hA : 0 < A.productions.size) (calls : List Call) :
    ∃ b, afterCalls A calls = some b ∧ Records (registeredSince A calls) b := by
  have hfrom : ∀ past b, Records past b →
      ∃ b', calls.foldlM (call A) b = some b' ∧
        Records (calls.foldl (registration A) past) b' := by
    induction calls with
    | nil => exact fun past b h => ⟨b, rfl, h⟩
    | cons call calls ih =>
      intro past b h
      obtain ⟨b₁, hcall, h₁⟩ := h.call hA call
      obtain ⟨b', hcalls, h'⟩ := ih _ b₁ h₁
      refine ⟨b', ?_, h'⟩
      rw [List.foldlM_cons, hcall]
      exact hcalls
  exact hfrom [] {} (records_reset {})

/-- **A builder identifies item sets**: its states have the numbers below the next one, its index is
a bijection onto them, and items are registered by the set that they make up. -/
structure Identifies (b : Builder) : Prop where
  /-- The numbers of the states are those below the next one, in order. -/
  ids : b.states.toList.map (·.id) = List.range b.nextId
  /-- The index leads to these numbers only. -/
  index_lt : ∀ (σ : String) (id : ℕ), b.index[σ]? = some id → id < b.nextId
  /-- The index leads to each of them from one signature. -/
  index_unique : ∀ id : ℕ, id < b.nextId → ∃! σ : String, b.index[σ]? = some id
  /-- It is the signature that the state carries, the one of its items. -/
  index_signature : ∀ s ∈ b.states.toList,
    s.signature = Item.signature s.items ∧ b.index[s.signature]? = some s.id
  /-- No two states have the same items. -/
  distinct : b.states.toList.Pairwise fun s s' => ¬SameItems s.items s'.items
  /-- If a state has the same items, it is found, and nothing changes. -/
  found : ∀ items, ∀ s ∈ b.states.toList, SameItems s.items items →
    b.register items = some ⟨b, s, false⟩
  /-- If no state has the same items, a state is made of them and stored. -/
  made : ∀ items, (∀ s ∈ b.states.toList, ¬SameItems s.items items) →
    b.register items = some ⟨b.store (b.nextState items), b.nextState items, true⟩

theorem IsStore.identifies (h : b.IsStore) : b.Identifies := by
  have hmem : ∀ s ∈ b.states.toList, s ∈ b.states := fun s => Array.mem_toList_iff.mp
  have hget : ∀ (k : ℕ) (hk : k < b.states.toList.length),
      b.states[k]? = some b.states.toList[k] := fun k hk => by
    rw [← Array.getElem?_toList, List.getElem?_eq_getElem]
  constructor
  case ids =>
    refine List.ext_getElem (by simp [h.nextId_eq]) fun k hk _ => ?_
    rw [List.getElem_map, List.getElem_range]
    exact h.id_eq k _ (hget k _)
  case index_lt =>
    intro σ id hσ
    obtain ⟨s, hs, -⟩ := (h.index_iff σ id).mp hσ
    rw [h.nextId_eq]
    exact (Array.getElem?_eq_some_iff.mp hs).1
  case index_unique =>
    intro id hid
    rw [h.nextId_eq] at hid
    have hs := Array.getElem?_eq_getElem hid
    refine ⟨_, h.getElem?_index hs, fun σ hσ => ?_⟩
    obtain ⟨s, hs', rfl⟩ := (h.index_iff σ id).mp hσ
    rw [hs] at hs'
    rw [Option.some.inj hs']
  case index_signature =>
    intro s hs
    obtain ⟨k, hk⟩ := Array.mem_iff_getElem?.mp (hmem s hs)
    refine ⟨h.signature_eq k s hk, ?_⟩
    rw [h.id_eq k s hk]
    exact h.getElem?_index hk
  case distinct =>
    refine List.pairwise_iff_getElem.mpr fun j k hj hk hjk hsame => hjk.ne ?_
    have hsignature := (h.signature_eq_iff (Array.mem_of_getElem? (hget j hj))).mpr hsame
    rw [← h.signature_eq k _ (hget k hk)] at hsignature
    exact h.signature_injective (hget j hj) (hget k hk) hsignature
  case found => exact fun items s hs hsame => h.register_of_mem (hmem s hs) hsame
  case made =>
    intro items hnew
    exact h.register_of_new fun s hs => hnew s (Array.mem_toList_iff.mpr hs)

/-- **Signatures identify item sets exactly, and so does a builder.** Two lists of items have the
same signature exactly if they have the same items. Whatever calls a builder gets, each of them has
a result; then its states are numbered in order, its index is a bijection onto their numbers, no two
states have the same items, and registering items makes a state exactly if no state has them. The
items of the states are the first of each list that was registered since the last build began, and a
build makes the automaton of the grammar. -/
theorem afterCalls_identifies (hA : 0 < A.productions.size) :
    (∀ items others : List Item,
      Item.signature items = Item.signature others ↔ ∀ i, i ∈ items ↔ i ∈ others) ∧
    ∀ calls : List Call, ∃ b, afterCalls A calls = some b ∧
      b.Identifies ∧
      b.states.toList.map (·.items) = firstOfEach (registeredSince A calls) ∧
      ∃ b', afterCalls A (calls ++ [.build]) = some b' ∧
        b'.automaton A = Automaton.ofAugmented A := by
  refine ⟨fun _ _ => Item.signature_eq_iff, fun calls => ?_⟩
  obtain ⟨b, hcalls, hrecords⟩ := exists_afterCalls hA calls
  obtain ⟨b', hbuild, hautomaton, -⟩ := exists_build hA b
  refine ⟨b, hcalls, hrecords.identifies, hrecords.items_eq, b', ?_, hautomaton⟩
  rw [afterCalls] at hcalls
  rw [afterCalls, List.foldlM_append, hcalls]
  exact (bind_pure (build A b)).trans hbuild

/-- What was registered before a build does not count; what is registered after it does. -/
theorem afterCalls_identifies_brackets :
    0 < Augmented.brackets.productions.size ∧
      ∃ b, afterCalls .brackets [.register [⟨9, 9⟩], .build, .register [⟨9, 9⟩, ⟨1, 0⟩],
          .register [⟨1, 0⟩, ⟨9, 9⟩, ⟨1, 0⟩]] = some b ∧
        b.Identifies ∧ b.states.toList.map (·.items) =
          (Automaton.ofAugmented .brackets).states.map (·.items) ++ [[⟨9, 9⟩, ⟨1, 0⟩]] := by
  have hA : 0 < Augmented.brackets.productions.size := by decide
  obtain ⟨b, hcalls, hidentifies, hitems, -⟩ := (afterCalls_identifies hA).2 _
  exact ⟨hA, b, hcalls, hidentifies, hitems.trans (by decide +kernel)⟩

end Builder

end ShiftReduce
