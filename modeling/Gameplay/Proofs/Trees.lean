import Mathlib.Data.List.Nodup
import Mathlib.Data.List.Perm.Subperm
import Mathlib.Logic.Relation
import Gameplay.Proofs.Forest

/-!
# The trees of a forest

`Arena.Covers` lists the nodes at and below the items of a list in the order in which a walk comes to them. In
a forest they are all different, so a tree has each of its nodes once.

## Main result

`Forest.covers_nodup`: the nodes at and below items of one list are all different. So they are no more than
there are nodes (`Forest.covers_length_le`).

## Proof strategy

A list of a forest lies in at most one other, and that one has a greater number. Going outward from the list
that a node stands in, one comes to every list that has the node in its tree, and so to at most one of the
branches of the if-blocks of one list (`Forest.siblings`).
-/

namespace Gameplay

namespace Arena

/-- The nodes at and below items, in the order of their script: an if-block, the nodes of its branches, and
those of the items after it. -/
inductive Covers (a : Arena) : List Nat → List Nat → Prop
  | done : Covers a [] []
  | act {n : Nat} {action : Action} {items later : List Nat} :
      a.nodes[n]? = some (.act action) → Covers a items later → Covers a (n :: items) (n :: later)
  | branch {n thenList elseList : Nat} {condition : Condition}
      {items thenItems elseItems thens elses later : List Nat} :
      a.nodes[n]? = some (.branch condition thenList elseList) →
      a.lists[thenList]? = some thenItems → Covers a thenItems thens →
      a.lists[elseList]? = some elseItems → Covers a elseItems elses →
      Covers a items later → Covers a (n :: items) (n :: (thens ++ elses ++ later))

/-- A node stands in a list. -/
def StandsIn (a : Arena) (n list : Nat) : Prop := ∃ items, a.lists[list]? = some items ∧ n ∈ items

/-- A list is a branch of an if-block. -/
def BranchOf (a : Arena) (list n : Nat) : Prop := ∃ node, a.nodes[n]? = some node ∧ list ∈ node.lists

/-- A list lies in another one: it is a branch of an if-block that stands there. -/
def LiesIn (a : Arena) (inner outer : Nat) : Prop := ∃ n, a.BranchOf inner n ∧ a.StandsIn n outer

/-- A node stands in a list, or in one that lies in it at any depth. -/
def InTree (a : Arena) (n list : Nat) : Prop :=
  ∃ home, Relation.ReflTransGen a.LiesIn home list ∧ a.StandsIn n home

/-- A node is one of the items, or is in the tree of a branch of one. -/
def Under (a : Arena) (items : List Nat) (n : Nat) : Prop :=
  n ∈ items ∨ ∃ item ∈ items, ∃ list, a.BranchOf list item ∧ a.InTree n list

variable {a : Arena}

theorem BranchOf.thens {n thenList elseList : Nat} {condition : Condition}
    (node : a.nodes[n]? = some (.branch condition thenList elseList)) : a.BranchOf thenList n :=
  ⟨_, node, by simp [Node.lists]⟩

theorem BranchOf.elses {n thenList elseList : Nat} {condition : Condition}
    (node : a.nodes[n]? = some (.branch condition thenList elseList)) : a.BranchOf elseList n :=
  ⟨_, node, by simp [Node.lists]⟩

theorem Under.later {item n : Nat} {items : List Nat} (under : a.Under items n) : a.Under (item :: items) n := by
  rcases under with here | ⟨other, listed, below⟩
  · exact .inl (List.mem_cons_of_mem _ here)
  · exact .inr ⟨other, List.mem_cons_of_mem _ listed, below⟩

/-- What stands under the items of a list stands in the tree of the list. -/
theorem Under.inTree {list n : Nat} {items : List Nat} (under : a.Under items n)
    (found : a.lists[list]? = some items) : a.InTree n list := by
  rcases under with here | ⟨item, listed, inner, branch, home, path, stands⟩
  · exact ⟨list, .refl, items, found, here⟩
  · exact ⟨home, path.tail ⟨item, branch, items, found, listed⟩, stands⟩

/-- What is under the items of a branch is under the item whose branch it is. -/
theorem Under.of_branch {item n list : Nat} {items inside : List Nat} (under : a.Under inside n)
    (owned : a.BranchOf list item) (found : a.lists[list]? = some inside) : a.Under (item :: items) n :=
  .inr ⟨item, List.mem_cons_self, list, owned, under.inTree found⟩

namespace Covers

variable {items nodes : List Nat} {n : Nat}

theorem under (covers : Covers a items nodes) (covered : n ∈ nodes) : a.Under items n := by
  induction covers with
  | done => cases covered
  | act _ _ ih =>
    rcases List.mem_cons.mp covered with rfl | later
    · exact .inl List.mem_cons_self
    · exact (ih later).later
  | branch node thenFound _ elseFound _ _ ihThens ihElses ihLater =>
    -- the if-block itself, what is under one of its branches, and what comes after it
    simp only [List.mem_cons, List.mem_append] at covered
    rcases covered with rfl | (first | second) | later
    · exact .inl List.mem_cons_self
    · exact (ihThens first).of_branch (.thens node) thenFound
    · exact (ihElses second).of_branch (.elses node) elseFound
    · exact (ihLater later).later

theorem inTree {list : Nat} (covers : Covers a items nodes) (found : a.lists[list]? = some items)
    (covered : n ∈ nodes) : a.InTree n list :=
  (covers.under covered).inTree found

/-- What is covered is a node of the arena. -/
theorem lt_size (covers : Covers a items nodes) (covered : n ∈ nodes) : n < a.nodes.size := by
  induction covers with
  | done => cases covered
  | act node _ ih =>
    rcases List.mem_cons.mp covered with rfl | later
    · exact (Array.getElem?_eq_some_iff.mp node).1
    · exact ih later
  | branch node _ _ _ _ _ ihThens ihElses ihLater =>
    simp only [List.mem_cons, List.mem_append] at covered
    rcases covered with rfl | (first | second) | later
    · exact (Array.getElem?_eq_some_iff.mp node).1
    · exact ihThens first
    · exact ihElses second
    · exact ihLater later

end Covers

/-- What stands for a script covers nodes. -/
theorem Reads.covers {items : List Nat} {script : Script} (reads : Reads a items script) :
    ∃ nodes, Covers a items nodes := by
  induction reads with
  | done => exact ⟨_, .done⟩
  | act node _ ih =>
    obtain ⟨later, covers⟩ := ih
    exact ⟨_, .act node covers⟩
  | branch node thenList _ elseList _ _ ihThens ihElses ihRest =>
    obtain ⟨thens, thenCovers⟩ := ihThens
    obtain ⟨elses, elseCovers⟩ := ihElses
    obtain ⟨later, covers⟩ := ihRest
    exact ⟨_, .branch node thenList thenCovers elseList elseCovers covers⟩

/-! ### going outward -/

/-- Where nothing occurs twice, a member tells the position of its list. -/
private theorem position_unique {xss : List (List Nat)} (distinct : xss.flatten.Nodup) {m n x : Nat}
    {xs ys : List Nat} (first : xss[m]? = some xs) (second : xss[n]? = some ys) (left : x ∈ xs)
    (right : x ∈ ys) : m = n := by
  have apart : ∀ {i j : Nat} {us vs : List Nat},
      i < j → xss[i]? = some us → xss[j]? = some vs → us.Disjoint vs := by
    intro i j us vs before here there
    obtain ⟨boundHere, rfl⟩ := List.getElem?_eq_some_iff.mp here
    obtain ⟨boundThere, rfl⟩ := List.getElem?_eq_some_iff.mp there
    exact List.pairwise_iff_getElem.mp (List.nodup_flatten.mp distinct).2 i j boundHere boundThere before
  rcases Nat.lt_trichotomy m n with before | same | after
  · exact absurd right (apart before first second left)
  · exact same
  · exact absurd left (apart after second first right)

namespace Forest

variable {roots loose : List Nat}

theorem items_nodup (forest : a.Forest roots loose) : a.items.Nodup :=
  (List.nodup_append.mp (forest.nodes.nodup_iff.mpr List.nodup_range)).2.1

theorem branches_nodup (forest : a.Forest roots loose) : a.branches.Nodup :=
  (List.nodup_append.mp (forest.lists.nodup_iff.mpr List.nodup_range)).2.1

/-- No node stands twice in a list. -/
theorem list_nodup (forest : a.Forest roots loose) {list : Nat} {items : List Nat}
    (found : a.lists[list]? = some items) : items.Nodup :=
  (List.nodup_flatten.mp forest.items_nodup).1 items (List.mem_of_getElem? (by simpa using found))

/-- The branches of an if-block are two lists. -/
theorem lists_nodup (forest : a.Forest roots loose) {n : Nat} {node : Node} (found : a.nodes[n]? = some node) :
    node.lists.Nodup :=
  (List.nodup_flatMap.mp forest.branches_nodup).1 node (List.mem_of_getElem? (by simpa using found))

/-- A node stands in one list. -/
theorem home_unique (forest : a.Forest roots loose) {n list other : Nat} (left : a.StandsIn n list)
    (right : a.StandsIn n other) : list = other := by
  obtain ⟨items, found, listed⟩ := left
  obtain ⟨others, foundOther, listedOther⟩ := right
  exact position_unique forest.items_nodup (by simpa using found) (by simpa using foundOther) listed listedOther

/-- A list is a branch of one node. -/
theorem owner_unique (forest : a.Forest roots loose) {list m n : Nat} (left : a.BranchOf list m)
    (right : a.BranchOf list n) : m = n := by
  obtain ⟨node, found, named⟩ := left
  obtain ⟨other, foundOther, namedOther⟩ := right
  have distinct : (a.nodes.toList.map (·.lists)).flatten.Nodup := forest.branches_nodup
  exact position_unique distinct (by simp [found]) (by simp [foundOther]) named namedOther

/-- A list lies in one list at most. -/
theorem outer_unique (forest : a.Forest roots loose) : Relator.RightUnique a.LiesIn := by
  rintro inner outer other ⟨m, branch, stands⟩ ⟨n, branchOther, standsOther⟩
  rw [forest.owner_unique branch branchOther] at stands
  exact forest.home_unique stands standsOther

/-- A list that lies in another was put down before it. -/
theorem lt_of_liesIn (forest : a.Forest roots loose) {inner outer : Nat} (lies : a.LiesIn inner outer) :
    inner < outer := by
  obtain ⟨n, ⟨node, found, named⟩, items, listed, member⟩ := lies
  exact forest.grounded outer items listed n member node found inner named

theorem le_of_path (forest : a.Forest roots loose) {inner outer : Nat}
    (path : Relation.ReflTransGen a.LiesIn inner outer) : inner ≤ outer := by
  induction path with
  | refl => exact Nat.le_refl _
  | tail _ lies ih => exact Nat.le_trans ih (Nat.le_of_lt (forest.lt_of_liesIn lies))

/-- A node of a list is in none of the trees that lie in the list. -/
theorem not_inTree (forest : a.Forest roots loose) {n inner outer : Nat} (lies : a.LiesIn inner outer)
    (stands : a.StandsIn n outer) : ¬ a.InTree n inner := by
  rintro ⟨home, path, here⟩
  have bound : home ≤ inner := forest.le_of_path path
  have smaller : inner < outer := forest.lt_of_liesIn lies
  rw [forest.home_unique here stands] at bound
  omega

/-- From one list that lies in another there is no path to a second one. -/
private theorem no_path (forest : a.Forest roots loose) {s t outer : Nat} (left : a.LiesIn s outer)
    (right : a.LiesIn t outer) (path : Relation.ReflTransGen a.LiesIn s t) : s = t := by
  rcases path.cases_head with same | ⟨next, lies, further⟩
  · exact same
  · -- the path would lead through the list around both, which has a greater number than its end
    rw [forest.outer_unique lies left] at further
    have back := forest.le_of_path further
    have smaller := forest.lt_of_liesIn right
    omega

/-- The trees of two lists that lie in the same list have no node in common. -/
theorem siblings (forest : a.Forest roots loose) {n s t outer : Nat} (left : a.LiesIn s outer)
    (right : a.LiesIn t outer) (inLeft : a.InTree n s) (inRight : a.InTree n t) : s = t := by
  obtain ⟨home, path, stands⟩ := inLeft
  obtain ⟨other, pathOther, standsOther⟩ := inRight
  rw [← forest.home_unique stands standsOther] at pathOther
  rcases Relation.ReflTransGen.total_of_right_unique forest.outer_unique path pathOther with further | further
  · exact forest.no_path left right further
  · exact (forest.no_path right left further).symm

section

variable {list n : Nat} {items whole : List Nat}

/-- The tree of a branch of an item has no node in common with the items after it, or below them. -/
private theorem tree_apart (forest : a.Forest roots loose) (found : a.lists[list]? = some whole)
    (part : (n :: items).Sublist whole) {branch : Nat} (owned : a.BranchOf branch n) {x : Nat}
    (inside : a.InTree x branch) : ¬ a.Under items x := by
  have lies : a.LiesIn branch list := ⟨n, owned, whole, found, part.subset List.mem_cons_self⟩
  have rest : ∀ item ∈ items, a.StandsIn item list :=
    fun item listed => ⟨whole, found, part.subset (List.mem_cons_of_mem _ listed)⟩
  rintro (here | ⟨item, listed, other, ownedOther, insideOther⟩)
  · exact forest.not_inTree lies (rest x here) inside
  · -- the two branches are one list, so the item stands twice in its list
    have same : branch = other := forest.siblings lies ⟨item, ownedOther, rest item listed⟩ inside insideOther
    have again : n = item := forest.owner_unique owned (same ▸ ownedOther)
    have distinct := part.nodup (forest.list_nodup found)
    exact (List.nodup_cons.mp distinct).1 (again ▸ listed)

/-- An item of a list does not stand under the items after it. -/
private theorem item_apart (forest : a.Forest roots loose) (found : a.lists[list]? = some whole)
    (part : (n :: items).Sublist whole) : ¬ a.Under items n := by
  rintro (here | ⟨item, listed, branch, owned, inside⟩)
  · exact (List.nodup_cons.mp (part.nodup (forest.list_nodup found))).1 here
  · have stands : a.StandsIn n list := ⟨whole, found, part.subset List.mem_cons_self⟩
    have lies : a.LiesIn branch list :=
      ⟨item, owned, whole, found, part.subset (List.mem_cons_of_mem _ listed)⟩
    exact forest.not_inTree lies stands inside

end

/-- The nodes at and below items of one list are all different. -/
theorem covers_nodup (forest : a.Forest roots loose) {list : Nat} {items nodes whole : List Nat}
    (covers : Covers a items nodes) (found : a.lists[list]? = some whole) (part : items.Sublist whole) :
    nodes.Nodup := by
  -- on what the items cover; each branch is again a whole list, and the items after one a part of its list
  induction covers generalizing list whole with
  | done => exact .nil
  | @act n _ items _ _ covers ih =>
    have fresh : ¬ a.Under items n := forest.item_apart found part
    have rest := ih found ((List.sublist_cons_self n items).trans part)
    exact List.nodup_cons.mpr ⟨fun covered => fresh (covers.under covered), rest⟩
  | @branch n thenList elseList _ items _ _ thens elses later node thenFound thenCovers elseFound elseCovers
      covers ihThens ihElses ihLater =>
    have stands : a.StandsIn n list := ⟨whole, found, part.subset List.mem_cons_self⟩
    have thenLies : a.LiesIn thenList list := ⟨n, .thens node, stands⟩
    have elseLies : a.LiesIn elseList list := ⟨n, .elses node, stands⟩
    -- the if-block is in neither tree and not below the items after it
    have head : n ∉ thens ++ elses ++ later := by
      simp only [List.mem_append]
      rintro ((first | second) | after)
      · exact forest.not_inTree thenLies stands (thenCovers.inTree thenFound first)
      · exact forest.not_inTree elseLies stands (elseCovers.inTree elseFound second)
      · exact forest.item_apart found part (covers.under after)
    -- its two trees have nothing in common
    have sides : thens.Disjoint elses := by
      intro x first second
      have same := forest.siblings thenLies elseLies (thenCovers.inTree thenFound first)
        (elseCovers.inTree elseFound second)
      simpa [Node.lists, same] using forest.lists_nodup node
    -- neither has anything in common with what comes after the if-block
    have after : (thens ++ elses).Disjoint later := by
      intro x inside outside
      have below : a.Under items x := covers.under outside
      rcases List.mem_append.mp inside with first | second
      · exact forest.tree_apart found part (.thens node) (thenCovers.inTree thenFound first) below
      · exact forest.tree_apart found part (.elses node) (elseCovers.inTree elseFound second) below
    have rest := ihLater found ((List.sublist_cons_self n items).trans part)
    have branches := (ihThens thenFound (.refl _)).append (ihElses elseFound (.refl _)) sides
    exact List.nodup_cons.mpr ⟨head, branches.append rest after⟩

/-- The nodes at and below items of one list are no more than there are nodes. -/
theorem covers_length_le (forest : a.Forest roots loose) {list : Nat} {items nodes whole : List Nat}
    (covers : Covers a items nodes) (found : a.lists[list]? = some whole) (part : items.Sublist whole) :
    nodes.length ≤ a.nodes.size := by
  have distinct := forest.covers_nodup covers found part
  have numbers : nodes ⊆ List.range a.nodes.size := fun n covered => List.mem_range.mpr (covers.lt_size covered)
  calc nodes.length
    _ ≤ (List.range a.nodes.size).length := (List.subperm_of_subset distinct numbers).length_le
    _ = a.nodes.size := List.length_range

end Forest

end Arena

end Gameplay
