import Mathlib.Data.List.Dedup
import Mathlib.Logic.Relation
import RpcStateIndexer.Reasoning.Except

/-!
# Descending into named nodes

A recursion over a finite table of nodes that name their children.  It carries the path it came along,
so that it ends on a cycle too.  What it computes is any type with an operation for each way a call can
go; what is proved of it is proved of these operations.
-/

namespace RpcStateIndexer.Reasoning

variable {κ ν γ : Type} [DecidableEq κ]

/-- The nodes that a path has not met. -/
def fresh (nodes : List (κ × ν)) (stack : List κ) : Nat :=
  nodes.countP fun entry => entry.1 ∉ stack

theorem fresh_lt {nodes : List (κ × ν)} {stack : List κ} {name : κ} {node : ν} (hstack : name ∉ stack)
    (h : nodes.lookup name = some node) : fresh nodes (name :: stack) < fresh nodes stack := by
  have hsum : fresh nodes stack = fresh nodes (name :: stack) +
      nodes.countP fun entry => decide (entry.1 ∉ stack) && decide (entry.1 = name) := by
    unfold fresh
    rw [List.countP_eq_countP_filter_add _ _ fun entry => decide (entry.1 ∉ name :: stack)]
    congr 1
    · rw [List.countP_filter]
      apply List.countP_congr
      intro entry _
      simp
    · rw [List.countP_filter]
      apply List.countP_congr
      intro entry _
      simp only [List.mem_cons, not_or, Bool.and_eq_true, decide_eq_true_eq, decide_not,
        Bool.not_eq_true', Bool.decide_and, Bool.and_eq_false_imp]
      grind
  have hpos : 0 < nodes.countP fun entry => decide (entry.1 ∉ stack) && decide (entry.1 = name) := by
    rw [List.countP_pos_iff]
    exact ⟨(name, node), mem_of_lookup_eq_some h, by simp [hstack]⟩
  omega

/-- The call on `name`, reached along `stack`, the latest name first. -/
def descend (nodes : List (κ × ν)) (children : ν → List κ) (cycle : List κ → κ → γ) (unknown : κ → γ)
    (visit : κ → ν → List γ → γ) (stack : List κ) (name : κ) : γ :=
  if _ : name ∈ stack then cycle stack name
  else match _ : nodes.lookup name with
    | none => unknown name
    | some node => visit name node ((children node).map fun child =>
        descend nodes children cycle unknown visit (name :: stack) child)
termination_by fresh nodes stack
decreasing_by exact fresh_lt (by assumption) (by assumption)

/-! ## What a name leads to -/

/-- `y` is a child of `x` that is followed. -/
def Follows (nodes : List (κ × ν)) (follow : ν → List κ) (x y : κ) : Prop :=
  ∃ node, nodes.lookup x = some node ∧ y ∈ follow node

/-- The name leads to an unknown one or to a cycle. -/
def Broken (nodes : List (κ × ν)) (follow : ν → List κ) (name : κ) : Prop :=
  ∃ x, Relation.ReflTransGen (Follows nodes follow) name x ∧
    (nodes.lookup x = none ∨ Relation.TransGen (Follows nodes follow) x x)

/-- Every path from the name ends, at a known one. -/
inductive Grounded (nodes : List (κ × ν)) (follow : ν → List κ) : κ → Prop
  | intro {name : κ} {node : ν} (known : nodes.lookup name = some node)
      (children : ∀ child ∈ follow node, Grounded nodes follow child) : Grounded nodes follow name

section Paths

variable {nodes : List (κ × ν)} {follow : ν → List κ} {name : κ}

theorem Grounded.child (h : Grounded nodes follow name) {child : κ}
    (hchild : Follows nodes follow name child) : Grounded nodes follow child := by
  obtain ⟨hknown, hchildren⟩ := h
  obtain ⟨node, hnode, hmem⟩ := hchild
  rw [hknown] at hnode
  cases hnode
  exact hchildren child hmem

theorem Grounded.reaches (h : Grounded nodes follow name) {x : κ}
    (hreach : Relation.ReflTransGen (Follows nodes follow) name x) : Grounded nodes follow x := by
  induction hreach with
  | refl => exact h
  | tail _ hstep ih => exact ih.child hstep

theorem Grounded.acyclic (h : Grounded nodes follow name) :
    ¬ Relation.TransGen (Follows nodes follow) name name := by
  induction h with
  | @intro name node hknown _ ih =>
    intro hcycle
    obtain ⟨child, hstep, hback⟩ := Relation.TransGen.head'_iff.mp hcycle
    obtain ⟨node', hnode', hmem⟩ := hstep
    obtain rfl : node = node' := Option.some.inj (hknown.symm.trans hnode')
    exact ih child hmem (Relation.TransGen.tail' hback ⟨node, hknown, hmem⟩)

theorem Grounded.not_broken (h : Grounded nodes follow name) : ¬ Broken nodes follow name := by
  intro hbroken
  obtain ⟨x, hreach, hend⟩ := hbroken
  have hx := h.reaches hreach
  cases hend with
  | inl hunknown =>
    obtain ⟨hknown, -⟩ := hx
    rw [hunknown] at hknown
    cases hknown
  | inr hcycle => exact hx.acyclic hcycle

/-- A child of a name that is not broken is not broken. -/
theorem not_broken_child (h : ¬ Broken nodes follow name) {child : κ}
    (hchild : Follows nodes follow name child) : ¬ Broken nodes follow child := by
  intro hbroken
  obtain ⟨x, hreach, hend⟩ := hbroken
  exact h ⟨x, .head hchild hreach, hend⟩

/-- Along a path without a cycle the nodes run out. -/
theorem grounded_of_not_broken (h : ¬ Broken nodes follow name) : Grounded nodes follow name := by
  have hpath : ∀ n stack name, fresh nodes stack = n →
      (∀ s ∈ stack, Relation.TransGen (Follows nodes follow) s name) →
        ¬ Broken nodes follow name → Grounded nodes follow name := by
    intro n
    induction n using Nat.strongRecOn with
    | ind n ih =>
      intro stack name hn hstack hname
      have hnew : name ∉ stack := fun hmem => hname ⟨name, .refl, .inr (hstack name hmem)⟩
      cases hnode : nodes.lookup name with
      | none => exact absurd ⟨name, .refl, .inl hnode⟩ hname
      | some node =>
        refine ⟨hnode, fun child hchild => ?_⟩
        have hstep : Follows nodes follow name child := ⟨node, hnode, hchild⟩
        have hless := fresh_lt hnew hnode
        apply ih (fresh nodes (name :: stack)) (by omega) (name :: stack) child rfl
        · intro s hs
          rcases List.mem_cons.mp hs with rfl | hs
          · exact .single hstep
          · exact (hstack s hs).tail hstep
        · exact not_broken_child hname hstep
  exact hpath _ [] name rfl (fun s hs => absurd hs List.not_mem_nil) h

end Paths

/-! ## What a descent computes -/

section Descend

variable {nodes : List (κ × ν)} {children follow : ν → List κ} {cycle : List κ → κ → γ} {unknown : κ → γ}
  {visit : κ → ν → List γ → γ} {stack : List κ} {name : κ}

theorem descend_cycle (hstack : name ∈ stack) :
    descend nodes children cycle unknown visit stack name = cycle stack name := by
  rw [descend, dif_pos hstack]

theorem descend_unknown (hstack : name ∉ stack) (hnode : nodes.lookup name = none) :
    descend nodes children cycle unknown visit stack name = unknown name := by
  rw [descend, dif_neg hstack]
  split
  · rfl
  · rename_i node hsome
    rw [hnode] at hsome
    cases hsome

theorem descend_known {node : ν} (hstack : name ∉ stack) (hnode : nodes.lookup name = some node) :
    descend nodes children cycle unknown visit stack name =
      visit name node ((children node).map
        (descend nodes children cycle unknown visit (name :: stack))) := by
  rw [descend, dif_neg hstack]
  split
  · rename_i hnone
    rw [hnode] at hnone
    cases hnone
  · rename_i node' hsome
    obtain rfl : node = node' := Option.some.inj (hnode.symm.trans hsome)
    rfl

/-- What holds of every end, and of a node when it holds of its children, holds of every call. -/
theorem descend_induction {P : κ → γ → Prop} (hcycle : ∀ stack name, P name (cycle stack name))
    (hunknown : ∀ name, P name (unknown name))
    (hvisit : ∀ name node (g : κ → γ), nodes.lookup name = some node →
      (∀ child ∈ children node, P child (g child)) → P name (visit name node ((children node).map g)))
    (stack : List κ) (name : κ) : P name (descend nodes children cycle unknown visit stack name) := by
  induction stack, name using descend.induct nodes with
  | case1 stack name hstack =>
    rw [descend_cycle hstack]
    exact hcycle stack name
  | case2 stack name hstack hnode =>
    rw [descend_unknown hstack hnode]
    exact hunknown name
  | case3 stack name hstack node hnode ih =>
    rw [descend_known hstack hnode]
    exact hvisit name node _ hnode fun child _ => ih child

/-- A property that only a cycle or an unknown name brings in shows that the name leads to one. -/
theorem broken_of_descend {P : γ → Prop}
    (hvisit : ∀ name node (g : κ → γ), P (visit name node ((children node).map g)) →
      ∃ child ∈ follow node, P (g child))
    (h : P (descend nodes children cycle unknown visit [] name)) : Broken nodes follow name := by
  -- A cycle closes on a name of the path, which is empty at the start.
  have hpath : ∀ stack name, P (descend nodes children cycle unknown visit stack name) →
      ∃ x, Relation.ReflTransGen (Follows nodes follow) name x ∧
        (x ∈ stack ∨ nodes.lookup x = none ∨ Relation.TransGen (Follows nodes follow) x x) := by
    intro stack name
    induction stack, name using descend.induct nodes with
    | case1 stack name hstack => exact fun _ => ⟨name, .refl, .inl hstack⟩
    | case2 stack name hstack hnode => exact fun _ => ⟨name, .refl, .inr (.inl hnode)⟩
    | case3 stack name hstack node hnode ih =>
      intro h
      rw [descend_known hstack hnode] at h
      obtain ⟨child, hchild, hP⟩ := hvisit name node _ h
      have hstep : Follows nodes follow name child := ⟨node, hnode, hchild⟩
      obtain ⟨x, hreach, hx | hend⟩ := ih child hP
      · rcases List.mem_cons.mp hx with rfl | hx
        · exact ⟨x, .refl, .inr (.inr (Relation.TransGen.head' hstep hreach))⟩
        · exact ⟨x, .head hstep hreach, .inl hx⟩
      · exact ⟨x, .head hstep hreach, .inr hend⟩
  obtain ⟨x, hreach, hx | hend⟩ := hpath [] name h
  · exact absurd hx List.not_mem_nil
  · exact ⟨x, hreach, hend⟩

/-- A property that neither a cycle nor an unknown name has, and that a node takes from its children,
shows that the name is grounded. -/
theorem grounded_of_descend {P : γ → Prop} (hcycle : ∀ stack name, ¬ P (cycle stack name))
    (hunknown : ∀ name, ¬ P (unknown name))
    (hvisit : ∀ name node (g : κ → γ), P (visit name node ((children node).map g)) →
      ∀ child ∈ follow node, P (g child))
    (h : P (descend nodes children cycle unknown visit stack name)) : Grounded nodes follow name := by
  induction stack, name using descend.induct nodes with
  | case1 stack name hstack =>
    rw [descend_cycle hstack] at h
    exact absurd h (hcycle stack name)
  | case2 stack name hstack hnode =>
    rw [descend_unknown hstack hnode] at h
    exact absurd h (hunknown name)
  | case3 stack name hstack node hnode ih =>
    rw [descend_known hstack hnode] at h
    exact ⟨hnode, fun child hchild => ih child (hvisit name node _ h child hchild)⟩

/-- What holds of a node when it holds of its followed children holds of a grounded name. -/
theorem descend_of_grounded {P : κ → γ → Prop}
    (hvisit : ∀ name node (g : κ → γ), nodes.lookup name = some node →
      (∀ child ∈ follow node, P child (g child)) → P name (visit name node ((children node).map g)))
    (h : Grounded nodes follow name) :
    P name (descend nodes children cycle unknown visit [] name) := by
  -- No name of the path is reached again.
  have hpath : ∀ stack, (∀ s ∈ stack, ¬ Relation.ReflTransGen (Follows nodes follow) name s) →
      P name (descend nodes children cycle unknown visit stack name) := by
    induction h with
    | @intro name node hknown hchildren ih =>
      intro stack hstack
      rw [descend_known (fun hmem => hstack name hmem .refl) hknown]
      refine hvisit name node _ hknown fun child hchild => ih child hchild _ fun s hs hreach => ?_
      have hstep : Follows nodes follow name child := ⟨node, hknown, hchild⟩
      rcases List.mem_cons.mp hs with rfl | hs
      · exact (Grounded.intro hknown hchildren).acyclic (Relation.TransGen.head' hstep hreach)
      · exact hstack s hs (.head hstep hreach)
  exact hpath [] fun s hs => absurd hs List.not_mem_nil

/-- Over more nodes, a relation that holds from every end to anything holds between the calls. -/
theorem descend_rel {nodes' : List (κ × ν)} {visit' : κ → ν → List γ → γ} {R : γ → γ → Prop}
    (hnodes : ∀ name node, nodes.lookup name = some node → nodes'.lookup name = some node)
    (hcycle : ∀ stack name c, R (cycle stack name) c) (hunknown : ∀ name c, R (unknown name) c)
    (hvisit : ∀ name node (g g' : κ → γ), (∀ child, R (g child) (g' child)) →
      R (visit name node ((children node).map g)) (visit' name node ((children node).map g')))
    (stack : List κ) (name : κ) :
    R (descend nodes children cycle unknown visit stack name)
      (descend nodes' children cycle unknown visit' stack name) := by
  induction stack, name using descend.induct nodes with
  | case1 stack name hstack =>
    rw [descend_cycle hstack]
    exact hcycle stack name _
  | case2 stack name hstack hnode =>
    rw [descend_unknown hstack hnode]
    exact hunknown name _
  | case3 stack name hstack node hnode ih =>
    rw [descend_known hstack hnode, descend_known hstack (hnodes name node hnode)]
    exact hvisit name node _ _ ih

end Descend

end RpcStateIndexer.Reasoning
