import Mathlib.Logic.Relation
import ShiftReduce.Grammar.Basic
import ShiftReduce.Run.Tree

/-!
# Derivations and derivation trees

What a grammar says about words, with no machine in sight. A *sentential form* is a word of
symbols of either kind that the start symbol derives, and the language consists of those
sentential forms that hold terminals only. Everything here is stated of the rules alone: the
number of a production and the way it was authored play no part.

Three ways of looking at a derivation are related.

* `ShiftReduce.Grammar.Derives` rewrites one non-terminal at a time, anywhere in the word.
* `ShiftReduce.Grammar.RightmostDerives` rewrites the last non-terminal only, and says which
  productions were used, in order. It is what a shift-reduce machine finds, backwards.
* `ShiftReduce.Grammar.Derivation` says which trees record a derivation: a leaf that was read is
  a terminal, and a branch spells a rule of its label.

From rewriting to trees there are two bridges. A word of terminals that is derived has a forest
(`ShiftReduce.Grammar.exists_forest`). If a derived form only *begins* with terminals, the rest
of it may hold non-terminals from which no word can be derived, so that there is no tree; what
there is then is the left edge of one, which `ShiftReduce.Grammar.Opens` describes
(`ShiftReduce.Grammar.exists_opens`).
-/

namespace ShiftReduce

/-! ### Yield and size of a tree -/

namespace Tree

mutual

/-- The symbols that were read, from left to right. -/
def yield : Tree → List Symbol
  | node label true _ => [label]
  | node _ false children => yields children

/-- The symbols that were read, over several trees from left to right. -/
def yields : List Tree → List Symbol
  | [] => []
  | t :: rest => t.yield ++ yields rest

end

mutual

/-- The number of nodes. -/
def size : Tree → Nat
  | node _ _ children => sizes children + 1

/-- The number of nodes of several trees. -/
def sizes : List Tree → Nat
  | [] => 0
  | t :: rest => t.size + sizes rest

end

@[simp] theorem label_leaf (a : Symbol) : (leaf a).label = a := rfl

@[simp] theorem label_branch (A : Symbol) (children : List Tree) :
    (branch A children).label = A := rfl

@[simp] theorem yield_leaf (a : Symbol) : (leaf a).yield = [a] := by simp [leaf, yield]

@[simp] theorem yield_branch (A : Symbol) (children : List Tree) :
    (branch A children).yield = yields children := by simp [branch, yield]

@[simp] theorem yields_nil : yields [] = [] := by simp [yields]

@[simp] theorem yields_cons (t : Tree) (ts : List Tree) :
    yields (t :: ts) = t.yield ++ yields ts := by simp [yields]

@[simp] theorem yields_append (ts us : List Tree) : yields (ts ++ us) = yields ts ++ yields us := by
  induction ts with
  | nil => simp
  | cons t ts ih => simp [ih]

/-- The leaves of a word yield the word. -/
@[simp] theorem yields_map_leaf (w : List Symbol) : yields (w.map leaf) = w := by
  induction w with
  | nil => simp
  | cons a w ih => simp [ih]

@[simp] theorem size_leaf (a : Symbol) : (leaf a).size = 1 := by simp [leaf, size, sizes]

@[simp] theorem size_branch (A : Symbol) (children : List Tree) :
    (branch A children).size = sizes children + 1 := by simp [branch, size]

@[simp] theorem sizes_nil : sizes [] = 0 := by simp [sizes]

@[simp] theorem sizes_cons (t : Tree) (ts : List Tree) : sizes (t :: ts) = t.size + sizes ts := by
  simp [sizes]

end Tree

namespace Grammar

/-! ### Rewriting -/

/-- A rule of the grammar: a left-hand side with a right-hand side that some production gives
it. -/
def HasRule (g : Grammar) (A : Symbol) (body : List Symbol) : Prop :=
  ∃ p ∈ g.productions, p.lhs = A ∧ p.rhs = body

instance (g : Grammar) (A : Symbol) (body : List Symbol) : Decidable (g.HasRule A body) :=
  inferInstanceAs (Decidable (∃ p ∈ g.productions, p.lhs = A ∧ p.rhs = body))

/-- **One derivation step**: a left-hand side, somewhere in the word, replaced by a right-hand
side. -/
def Rewrites (g : Grammar) (u v : List Symbol) : Prop :=
  ∃ x A body y, g.HasRule A body ∧ u = x ++ A :: y ∧ v = x ++ body ++ y

/-- **Derivability**: any number of derivation steps. -/
abbrev Derives (g : Grammar) : List Symbol → List Symbol → Prop :=
  Relation.ReflTransGen g.Rewrites

/-- A sentential form: a word of symbols of either kind that the start symbol derives. -/
def IsSentential (g : Grammar) (u : List Symbol) : Prop :=
  g.Derives [g.start] u

/-- **The language of the grammar**: the sentential forms that hold terminals only. -/
def Generates (g : Grammar) (w : List Symbol) : Prop :=
  g.IsSentential w ∧ ∀ a ∈ w, a ∈ g.terminals

/-- **Rightmost derivations, by the productions used.** Behind the symbol that a step replaces
there are terminals only. -/
def RightmostDerives (g : Grammar) : List Production → List Symbol → List Symbol → Prop
  | [], u, v => u = v
  | p :: used, u, v => ∃ x w, g.HasRule p.lhs p.rhs ∧ (∀ a ∈ w, a ∈ g.terminals) ∧
      u = x ++ p.lhs :: w ∧ g.RightmostDerives used (x ++ p.rhs ++ w) v

variable {g : Grammar}

theorem HasRule.rewrites {A : Symbol} {body : List Symbol} (h : g.HasRule A body) :
    g.Rewrites [A] body :=
  ⟨[], A, body, [], h, by simp, by simp⟩

theorem Rewrites.congr {u v : List Symbol} (h : g.Rewrites u v) (x y : List Symbol) :
    g.Rewrites (x ++ u ++ y) (x ++ v ++ y) := by
  obtain ⟨x', A, body, y', hrule, rfl, rfl⟩ := h
  exact ⟨x ++ x', A, body, y' ++ y, hrule, by simp, by simp⟩

theorem Derives.congr {u v : List Symbol} (h : g.Derives u v) (x y : List Symbol) :
    g.Derives (x ++ u ++ y) (x ++ v ++ y) := by
  induction h with
  | refl => exact Relation.ReflTransGen.refl
  | tail _ hstep ih => exact ih.tail (hstep.congr x y)

/-- A word derives what its parts derive. -/
theorem Derives.append {u u' v v' : List Symbol} (hu : g.Derives u u') (hv : g.Derives v v') :
    g.Derives (u ++ v) (u' ++ v') := by
  have h1 : g.Derives (u ++ v) (u' ++ v) := by simpa using hu.congr [] v
  have h2 : g.Derives (u' ++ v) (u' ++ v') := by simpa using hv.congr u' []
  exact h1.trans h2

/-! ### Derivation trees -/

/-- **Derivation trees.** A node that was read is a terminal without children, and any other node
spells, by the labels of its children, a rule of its own label. -/
inductive Derivation (g : Grammar) : Tree → Prop
  /-- A terminal that was read. -/
  | leaf {a : Symbol} : a ∈ g.terminals → g.Derivation (.leaf a)
  /-- A rule whose right-hand side is derived symbol by symbol. -/
  | branch {A : Symbol} {children : List Tree} : g.HasRule A (children.map Tree.label) →
      (∀ t ∈ children, g.Derivation t) → g.Derivation (.branch A children)

/-- **Unambiguous grammars**: no word has two derivation trees for the start symbol. -/
def Unambiguous (g : Grammar) : Prop :=
  ∀ t t', g.Derivation t → g.Derivation t' → t.label = g.start → t'.label = g.start →
    t.yield = t'.yield → t = t'

/-- Trees that are all derivation trees derive the word of their labels into their yields, if
each of them derives its label into its own. -/
theorem derives_yields_of_forall {ts : List Tree}
    (h : ∀ t ∈ ts, g.Derives [t.label] t.yield) :
    g.Derives (ts.map Tree.label) (Tree.yields ts) := by
  induction ts with
  | nil => exact Relation.ReflTransGen.refl
  | cons t ts ih =>
    have hhead := h t (by simp)
    have htail := ih fun u hu => h u (by simp [hu])
    simpa using hhead.append htail

/-- **A derivation tree derives its yield from its label.** -/
theorem Derivation.derives {t : Tree} (h : g.Derivation t) : g.Derives [t.label] t.yield := by
  induction h with
  | leaf ha => simpa using Relation.ReflTransGen.refl
  | branch hrule _ ih =>
    simpa using Relation.ReflTransGen.head hrule.rewrites (derives_yields_of_forall ih)

theorem derives_yields {ts : List Tree} (h : ∀ t ∈ ts, g.Derivation t) :
    g.Derives (ts.map Tree.label) (Tree.yields ts) :=
  derives_yields_of_forall fun t ht => (h t ht).derives

theorem mem_terminals_of_mem_yields_of_forall {ts : List Tree}
    (h : ∀ t ∈ ts, ∀ a ∈ t.yield, a ∈ g.terminals) :
    ∀ a ∈ Tree.yields ts, a ∈ g.terminals := by
  induction ts with
  | nil => simp
  | cons t ts ih =>
    intro a ha
    rcases List.mem_append.mp (Tree.yields_cons t ts ▸ ha) with ha | ha
    · exact h t (by simp) a ha
    · exact ih (fun u hu => h u (by simp [hu])) a ha

/-- **A derivation tree yields terminals only.** -/
theorem Derivation.mem_terminals {t : Tree} (h : g.Derivation t) :
    ∀ a ∈ t.yield, a ∈ g.terminals := by
  induction h with
  | leaf ha =>
    intro b hb
    obtain rfl : b = _ := by simpa using hb
    exact ha
  | branch _ _ ih => simpa using mem_terminals_of_mem_yields_of_forall ih

theorem mem_terminals_of_mem_yields {ts : List Tree} (h : ∀ t ∈ ts, g.Derivation t) :
    ∀ a ∈ Tree.yields ts, a ∈ g.terminals :=
  mem_terminals_of_mem_yields_of_forall fun t ht => (h t ht).mem_terminals

theorem derivation_of_mem_map_leaf {w : List Symbol} (h : ∀ a ∈ w, a ∈ g.terminals) :
    ∀ t ∈ w.map Tree.leaf, g.Derivation t := by
  intro t ht
  obtain ⟨a, ha, rfl⟩ := List.mem_map.mp ht
  exact .leaf (h a ha)

/-! ### From a derivation to a forest -/

/-- **A derived word of terminals has a forest** over whatever it is derived from. The induction
folds the derivation up from its end, one branch for each step. -/
theorem exists_forest {u w : List Symbol} (h : g.Derives u w) (hw : ∀ a ∈ w, a ∈ g.terminals) :
    ∃ ts : List Tree, ts.map Tree.label = u ∧ Tree.yields ts = w ∧ ∀ t ∈ ts, g.Derivation t := by
  induction h using Relation.ReflTransGen.head_induction_on with
  | refl => exact ⟨w.map Tree.leaf, by simp [Function.comp_def], by simp,
      derivation_of_mem_map_leaf hw⟩
  | head hstep _ ih =>
    obtain ⟨x, A, body, y, hrule, rfl, rfl⟩ := hstep
    obtain ⟨ts, hlabels, hyields, hts⟩ := ih
    obtain ⟨front, back, rfl, hfront, rfl⟩ := List.map_eq_append_iff.mp hlabels
    obtain ⟨left, mid, rfl, rfl, rfl⟩ := List.map_eq_append_iff.mp hfront
    refine ⟨left ++ .branch A mid :: back, by simp, by simpa using hyields, fun t ht => ?_⟩
    rcases List.mem_append.mp ht with ht | ht
    · exact hts t (by simp [ht])
    rcases List.mem_cons.mp ht with rfl | ht
    · exact .branch hrule fun u hu => hts u (by simp [hu])
    · exact hts t (by simp [ht])

/-- **A word of the language has a derivation tree.** -/
theorem Generates.exists_derivation {w : List Symbol} (h : g.Generates w) :
    ∃ t, g.Derivation t ∧ t.label = g.start ∧ t.yield = w := by
  obtain ⟨ts, hlabels, hyields, hts⟩ := exists_forest h.1 h.2
  obtain ⟨t, rest, rfl, hlabel, hrest⟩ := List.map_eq_cons_iff.mp hlabels
  obtain rfl := List.map_eq_nil_iff.mp hrest
  exact ⟨t, hts t (by simp), hlabel, by simpa using hyields⟩

/-! ### The left edge of a derivation -/

/-- **The left edge of a derivation.** From the symbol one comes to a word that begins with `u`
and the terminal `a` behind it: along the way down to that terminal everything on its left is
derived completely, and nothing is said of what stands on its right. -/
inductive Opens (g : Grammar) : Symbol → List Symbol → Symbol → Prop
  /-- The terminal is reached. -/
  | here {a : Symbol} : a ∈ g.terminals → g.Opens a [] a
  /-- One rule further down. -/
  | down {A X a : Symbol} {left : List Tree} {right u : List Symbol} :
      g.HasRule A (left.map Tree.label ++ X :: right) → (∀ t ∈ left, g.Derivation t) →
      g.Opens X u a → g.Opens A (Tree.yields left ++ u) a

theorem Opens.mem_terminals {X a : Symbol} {u : List Symbol} (h : g.Opens X u a) :
    (∀ b ∈ u, b ∈ g.terminals) ∧ a ∈ g.terminals := by
  induction h with
  | here ha => exact ⟨by simp, ha⟩
  | down _ hleft _ ih =>
    refine ⟨fun b hb => ?_, ih.2⟩
    rcases List.mem_append.mp hb with hb | hb
    · exact mem_terminals_of_mem_yields hleft b hb
    · exact ih.1 b hb

/-- The left edge of a derivation from a whole word: some symbol of the word is where the
terminal comes from, and what stands on its left is derived completely. -/
def OpensWord (g : Grammar) (form u : List Symbol) (a : Symbol) : Prop :=
  ∃ (left : List Tree) (X : Symbol) (right v : List Symbol),
    form = left.map Tree.label ++ X :: right ∧ (∀ t ∈ left, g.Derivation t) ∧
    g.Opens X v a ∧ u = Tree.yields left ++ v

/-- **One step backwards along the left edge.** The step is on the left of the symbol the
terminal comes from and folds some trees into one, or it made that symbol and the edge gets
longer, or it is on the right and does not matter. -/
theorem OpensWord.of_rewrites {form form' u : List Symbol} {a : Symbol}
    (hstep : g.Rewrites form form') (h : g.OpensWord form' u a) : g.OpensWord form u a := by
  obtain ⟨x, A, body, y, hrule, rfl, rfl⟩ := hstep
  obtain ⟨left, X, right, v, hform, hleft, hX, rfl⟩ := h
  have hsplit : (∃ r, x = left.map Tree.label ++ X :: r) ∨
      (∃ l r, left.map Tree.label = x ++ l ∧ body = l ++ X :: r) ∨
      ∃ l, left.map Tree.label = x ++ body ++ l ∧ y = l ++ X :: right := by
    rcases List.append_eq_append_iff.mp hform with ⟨l, hl, hy⟩ | ⟨l, hl, hright⟩
    · exact Or.inr (Or.inr ⟨l, hl, hy⟩)
    · rcases l with _ | ⟨Y, l⟩
      · exact Or.inr (Or.inr ⟨[], by simpa using hl.symm, by simpa using hright.symm⟩)
      · obtain ⟨rfl, rfl⟩ : X = Y ∧ right = l ++ y := by simpa using hright
        rcases List.append_eq_append_iff.mp hl with ⟨m, hm, hbody⟩ | ⟨m, rfl, hm⟩
        · exact Or.inr (Or.inl ⟨m, l, hm, hbody⟩)
        · rcases m with _ | ⟨Z, m⟩
          · exact Or.inr (Or.inl ⟨[], l, by simp, by simpa using hm.symm⟩)
          · obtain ⟨rfl, rfl⟩ : X = Z ∧ l = m ++ body := by simpa using hm
            exact Or.inl ⟨m, rfl⟩
  rcases hsplit with ⟨r, rfl⟩ | ⟨l, r, hl, rfl⟩ | ⟨l, hl, rfl⟩
  · exact ⟨left, X, r ++ A :: y, v, by simp, hleft, hX, rfl⟩
  · obtain ⟨front, mid, rfl, rfl, rfl⟩ := List.map_eq_append_iff.mp hl
    refine ⟨front, A, y, Tree.yields mid ++ v, by simp, fun t ht => hleft t (by simp [ht]), ?_,
      by simp⟩
    exact .down hrule (fun t ht => hleft t (by simp [ht])) hX
  · obtain ⟨front, back, rfl, hfront, rfl⟩ := List.map_eq_append_iff.mp hl
    obtain ⟨first, mid, rfl, rfl, rfl⟩ := List.map_eq_append_iff.mp hfront
    refine ⟨first ++ .branch A mid :: back, X, right, v, by simp, fun t ht => ?_, hX, by simp⟩
    rcases List.mem_append.mp ht with ht | ht
    · exact hleft t (by simp [ht])
    rcases List.mem_cons.mp ht with rfl | ht
    · exact .branch hrule fun u hu => hleft u (by simp [hu])
    · exact hleft t (by simp [ht])

theorem opensWord_of_derives {form rest u : List Symbol} {a : Symbol}
    (h : g.Derives form (u ++ a :: rest)) (hu : ∀ b ∈ u, b ∈ g.terminals) (ha : a ∈ g.terminals) :
    g.OpensWord form u a := by
  induction h using Relation.ReflTransGen.head_induction_on with
  | refl =>
    exact ⟨u.map Tree.leaf, a, rest, [], by simp [Function.comp_def],
      derivation_of_mem_map_leaf hu, .here ha, by simp⟩
  | head hstep _ ih => exact ih.of_rewrites hstep

/-- **A form that begins with terminals has a left edge**, whatever stands behind them. -/
theorem exists_opens {A a : Symbol} {u rest : List Symbol} (h : g.Derives [A] (u ++ a :: rest))
    (hu : ∀ b ∈ u, b ∈ g.terminals) (ha : a ∈ g.terminals) : g.Opens A u a := by
  obtain ⟨left, X, right, v, hform, -, hX, rfl⟩ := opensWord_of_derives h hu ha
  rcases left with _ | ⟨t, left⟩
  · obtain ⟨rfl, -⟩ : A = X ∧ right = [] := by simpa using hform
    simpa using hX
  · exact absurd hform (by simp)

end Grammar

end ShiftReduce
