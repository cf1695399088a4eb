import RpcStateIndexer.Reasoning.Tiling
import Mathlib.Algebra.Order.BigOperators.Group.List
import Mathlib.Algebra.BigOperators.Group.Finset.Piecewise
import Mathlib.Data.Finset.Dedup
import Mathlib.Tactic.Abel

/-!
# Step functions given by their jumps

A step function on a linear order is given by its jumps, in order.  Its value at a point is the sum of
the jumps at or below it; walking the jumps with a running sum gives the spans on which it is constant.
It is nowhere negative exactly when it is a sum of bumps.
-/

namespace RpcStateIndexer.Reasoning

/-- The half-open interval from `lower` to `upper`, with the value on it. -/
structure Span (α β : Type) where
  lower : α
  upper : α
  level : β
  deriving DecidableEq

variable {α β : Type}

/-- The spans between consecutive jumps, by a running sum that starts at `acc`. -/
def spans [Add β] (acc : β) : List (α × β) → List (Span α β)
  | [] => []
  | [_] => []
  | x :: y :: rest => ⟨x.1, y.1, acc + x.2⟩ :: spans (acc + x.2) (y :: rest)

theorem lower_spans [Add β] (acc : β) (jumps : List (α × β)) :
    (spans acc jumps).map Span.lower = jumps.dropLast.map Prod.fst := by
  induction acc, jumps using spans.induct with
  | case1 acc => rfl
  | case2 acc x => rfl
  | case3 acc x y rest ih =>
    rw [spans, List.map_cons, ih]
    rfl

/-- The spans abut, from the first jump to the last. -/
theorem spans_tiles [Add β] (acc : β) {jumps : List (α × β)} (h : jumps ≠ []) :
    Tiles Span.lower Span.upper (jumps.head h).1 (jumps.getLast h).1 (spans acc jumps) := by
  induction acc, jumps using spans.induct with
  | case1 acc => exact absurd rfl h
  | case2 acc x => exact .nil x.1
  | case3 acc x y rest ih =>
    rw [spans, Tiles.cons_iff, List.getLast_cons (List.cons_ne_nil y rest)]
    exact ⟨rfl, ih (List.cons_ne_nil y rest)⟩

section Order

variable [LinearOrder α]

/-- The jumps come in strictly ascending order. -/
def Ascending (jumps : List (α × β)) : Prop := jumps.Pairwise fun x y => x.1 < y.1

theorem lower_lt_upper [Add β] {acc : β} {jumps : List (α × β)} (h : Ascending jumps) :
    ∀ s ∈ spans acc jumps, s.lower < s.upper := by
  induction acc, jumps using spans.induct with
  | case1 acc => exact fun s hs => absurd hs List.not_mem_nil
  | case2 acc x => exact fun s hs => absurd hs List.not_mem_nil
  | case3 acc x y rest ih =>
    obtain ⟨hx, hrest⟩ := List.pairwise_cons.mp h
    intro s hs
    rw [spans, List.mem_cons] at hs
    rcases hs with rfl | hs
    · exact hx y List.mem_cons_self
    · exact ih hrest s hs

/-- No jump comes after the last. -/
theorem le_getLast {jumps : List (α × β)} (h : Ascending jumps) {j : α × β} (hj : j ∈ jumps) :
    j.1 ≤ (jumps.getLast (List.ne_nil_of_mem hj)).1 := by
  have hle : jumps.Pairwise fun x y => x.1 ≤ y.1 := h.imp fun hlt => hlt.le
  exact hle.rel_getLast_of_rel_getLast_getLast hj le_rfl

/-- A span starts at every jump but the last. -/
theorem mem_lower_spans [Add β] {acc : β} {jumps : List (α × β)} (h : Ascending jumps) {x : α} :
    x ∈ (spans acc jumps).map Span.lower ↔
      x ∈ jumps.map Prod.fst ∧ ∃ y ∈ jumps.map Prod.fst, x < y := by
  induction acc, jumps using spans.induct with
  | case1 acc => simp [spans]
  | case2 acc j =>
    simp only [spans, List.map_nil, List.not_mem_nil, List.map_cons, List.mem_singleton,
      exists_eq_left, false_iff, not_and, not_lt]
    exact fun hx => hx.ge
  | case3 acc j k rest ih =>
    obtain ⟨hj, hrest⟩ := List.pairwise_cons.mp h
    have hfirst : ∀ y ∈ (k :: rest).map Prod.fst, j.1 < y := by
      intro y hy
      obtain ⟨jump, hjump, rfl⟩ := List.mem_map.mp hy
      exact hj jump hjump
    have hk : k.1 ∈ (k :: rest).map Prod.fst := List.mem_cons_self
    have hmap : (j :: k :: rest).map Prod.fst = j.1 :: (k :: rest).map Prod.fst := rfl
    rw [spans, List.map_cons, List.mem_cons, ih hrest, hmap, List.mem_cons]
    constructor
    · rintro (rfl | ⟨hx, y, hy, hlt⟩)
      · exact ⟨.inl rfl, k.1, List.mem_cons_of_mem _ hk, hj k List.mem_cons_self⟩
      · exact ⟨.inr hx, y, List.mem_cons_of_mem _ hy, hlt⟩
    · rintro ⟨rfl | hx, y, hy, hlt⟩
      · exact .inl rfl
      · rcases List.mem_cons.mp hy with rfl | hy
        · exact absurd hlt (hfirst x hx).not_gt
        · exact .inr ⟨hx, y, hy, hlt⟩

/-- No two spans start at one point. -/
theorem span_unique [Add β] {acc : β} {jumps : List (α × β)} (h : Ascending jumps) {s s' : Span α β}
    (hs : s ∈ spans acc jumps) (hs' : s' ∈ spans acc jumps) (heq : s.lower = s'.lower) : s = s' := by
  have hnodup : ((spans acc jumps).map Span.lower).Nodup := by
    rw [lower_spans, List.Nodup, List.pairwise_map]
    exact (h.sublist (List.dropLast_sublist jumps)).imp fun hlt => hlt.ne
  exact List.inj_on_of_nodup_map hnodup hs hs' heq

variable [AddCommGroup β]

/-- The sum of the jumps at or below a point. -/
def height (jumps : List (α × β)) (x : α) : β := ((jumps.filter fun j => j.1 ≤ x).map Prod.snd).sum

/-- What the jumps at a point add up to. -/
def jumpAt (jumps : List (α × β)) (x : α) : β := ((jumps.filter fun j => j.1 = x).map Prod.snd).sum

/-- The sum of all jumps. -/
def total (jumps : List (α × β)) : β := (jumps.map Prod.snd).sum

/-- The value of the piecewise function that is zero outside of the spans. -/
def valueAt (pieces : List (Span α β)) (x : α) : β :=
  match pieces.find? fun s => s.lower ≤ x ∧ x < s.upper with
  | some s => s.level
  | none => 0

@[simp] theorem height_nil (x : α) : height ([] : List (α × β)) x = 0 := rfl

omit [LinearOrder α] in
@[simp] theorem total_nil : total ([] : List (α × β)) = 0 := rfl

omit [LinearOrder α] in
@[simp] theorem total_cons (j : α × β) (jumps : List (α × β)) : total (j :: jumps) = j.2 + total jumps :=
  rfl

theorem height_cons (j : α × β) (jumps : List (α × β)) (x : α) :
    height (j :: jumps) x = (if j.1 ≤ x then j.2 else 0) + height jumps x := by
  by_cases h : j.1 ≤ x
  · simp [height, h]
  · simp [height, h]

theorem jumpAt_cons (j : α × β) (jumps : List (α × β)) (x : α) :
    jumpAt (j :: jumps) x = (if j.1 = x then j.2 else 0) + jumpAt jumps x := by
  by_cases h : j.1 = x
  · simp [jumpAt, h]
  · simp [jumpAt, h]

/-- Below every jump the function is zero. -/
theorem height_of_lt {jumps : List (α × β)} {x : α} (h : ∀ j ∈ jumps, x < j.1) :
    height jumps x = 0 := by
  induction jumps with
  | nil => rfl
  | cons j jumps ih =>
    rw [height_cons, if_neg (not_le.mpr (h j List.mem_cons_self)),
      ih fun k hk => h k (List.mem_cons_of_mem j hk), add_zero]

/-- From the last jump on the function is the sum of all jumps. -/
theorem height_of_le {jumps : List (α × β)} {x : α} (h : ∀ j ∈ jumps, j.1 ≤ x) :
    height jumps x = total jumps := by
  induction jumps with
  | nil => rfl
  | cons j jumps ih =>
    rw [height_cons, if_pos (h j List.mem_cons_self),
      ih fun k hk => h k (List.mem_cons_of_mem j hk), total_cons]

/-- On a span the function has the level that the walk reached. -/
theorem level_eq_height {acc : β} {jumps : List (α × β)} (h : Ascending jumps) {s : Span α β}
    (hs : s ∈ spans acc jumps) {x : α} (hlower : s.lower ≤ x) (hupper : x < s.upper) :
    s.level = acc + height jumps x := by
  induction acc, jumps using spans.induct with
  | case1 acc => exact absurd hs List.not_mem_nil
  | case2 acc y => exact absurd hs List.not_mem_nil
  | case3 acc y z rest ih =>
    obtain ⟨hy, hrest⟩ := List.pairwise_cons.mp h
    rw [spans, List.mem_cons] at hs
    rcases hs with rfl | hs
    · -- The first span ends at the second jump, so only the first jump counts.
      have habove : ∀ j ∈ z :: rest, x < j.1 := by
        intro j hj
        rcases List.mem_cons.mp hj with rfl | hj
        · exact hupper
        · exact hupper.trans ((List.pairwise_cons.mp hrest).1 j hj)
      show acc + y.2 = acc + height (y :: z :: rest) x
      rw [height_cons, if_pos hlower, height_of_lt habove, add_zero]
    · have hle : y.1 ≤ x := by
        have hmem : s.lower ∈ (spans (acc + y.2) (z :: rest)).map Span.lower :=
          List.mem_map_of_mem hs
        rw [lower_spans, List.mem_map] at hmem
        obtain ⟨j, hj, hjs⟩ := hmem
        exact (hy j (List.mem_of_mem_dropLast hj)).le.trans (hjs ▸ hlower)
      rw [ih hrest hs, height_cons y, if_pos hle, add_assoc]

/-- A jump function that adds up to zero is the piecewise function of its spans, at every point. -/
theorem valueAt_spans {jumps : List (α × β)} (h : Ascending jumps) (hzero : total jumps = 0) (x : α) :
    valueAt (spans 0 jumps) x = height jumps x := by
  cases jumps with
  | nil => rfl
  | cons j rest =>
    have htiles := spans_tiles 0 (List.cons_ne_nil j rest)
    rw [List.head_cons] at htiles
    have hne : ∀ s ∈ spans 0 (j :: rest), s.lower < s.upper := lower_lt_upper h
    rw [valueAt]
    split
    · rename_i s hfind
      have hin := List.find?_some hfind
      simp only [decide_eq_true_eq] at hin
      rw [level_eq_height h (List.mem_of_find?_eq_some hfind) hin.1 hin.2, zero_add]
    · rename_i hfind
      -- The point lies in no span, so it is below the first jump or not below the last.
      have hout : ¬ (j.1 ≤ x ∧ x < ((j :: rest).getLast (List.cons_ne_nil j rest)).1) := by
        rw [← htiles.mem_iff hne x]
        rintro ⟨s, hs, hin⟩
        exact List.find?_eq_none.mp hfind s hs (decide_eq_true hin)
      obtain ⟨hj, -⟩ := List.pairwise_cons.mp h
      by_cases hbelow : x < j.1
      · symm
        apply height_of_lt
        intro k hk
        rcases List.mem_cons.mp hk with rfl | hk
        · exact hbelow
        · exact hbelow.trans (hj k hk)
      · have hlast : ((j :: rest).getLast (List.cons_ne_nil j rest)).1 ≤ x := by
          by_contra hlt
          exact hout ⟨not_lt.mp hbelow, not_le.mp hlt⟩
        rw [height_of_le fun k hk => (le_getLast h hk).trans hlast, hzero]

/-! ## Bumps -/

/-- A bump goes up at its lower end and down at its upper end. -/
def Span.jumps (s : Span α β) : List (α × β) := [(s.lower, s.level), (s.upper, -s.level)]

theorem jumpAt_append (jumps more : List (α × β)) (x : α) :
    jumpAt (jumps ++ more) x = jumpAt jumps x + jumpAt more x := by
  simp [jumpAt]

theorem height_append (jumps more : List (α × β)) (x : α) :
    height (jumps ++ more) x = height jumps x + height more x := by
  simp [height]

/-- The value at a point is what the jumps up to it add up to, point by point. -/
theorem height_eq_sum (jumps : List (α × β)) {points : Finset α} (h : ∀ j ∈ jumps, j.1 ∈ points)
    (x : α) : height jumps x = ∑ p ∈ points with p ≤ x, jumpAt jumps p := by
  induction jumps with
  | nil => simp [jumpAt]
  | cons j jumps ih =>
    have hj : j.1 ∈ points := h j List.mem_cons_self
    simp only [jumpAt_cons, Finset.sum_add_distrib, Finset.sum_ite_eq, Finset.mem_filter, hj,
      true_and, height_cons]
    rw [ih fun k hk => h k (List.mem_cons_of_mem j hk)]

/-- A jump function depends on what its jumps add up to at each point, and on nothing else. -/
theorem height_congr {jumps more : List (α × β)} (h : ∀ x, jumpAt jumps x = jumpAt more x) (x : α) :
    height jumps x = height more x := by
  have hpoints : ∀ j ∈ jumps ++ more, j.1 ∈ ((jumps ++ more).map Prod.fst).toFinset := by
    intro j hj
    exact List.mem_toFinset.mpr (List.mem_map_of_mem hj)
  rw [height_eq_sum jumps fun j hj => hpoints j (List.mem_append_left more hj),
    height_eq_sum more fun j hj => hpoints j (List.mem_append_right jumps hj)]
  exact Finset.sum_congr rfl fun p _ => h p

theorem height_bump {s : Span α β} (h : s.lower < s.upper) (x : α) :
    height s.jumps x = if s.lower ≤ x ∧ x < s.upper then s.level else 0 := by
  rw [Span.jumps, height_cons, height_cons, height_nil, add_zero]
  by_cases hlower : s.lower ≤ x
  · by_cases hupper : x < s.upper
    · simp [hlower, hupper]
    · simp [hlower, not_lt.mp hupper]
  · have hupper : ¬ s.upper ≤ x := fun hle => hlower (h.le.trans hle)
    simp [hlower, hupper]

/-- The bumps of the spans jump as the function does, but for what the walk starts and ends with. -/
theorem jumpAt_spans (acc : β) (x : α × β) (rest : List (α × β)) (p : α) :
    jumpAt ((spans acc (x :: rest)).flatMap Span.jumps) p =
      jumpAt (x :: rest) p + (if x.1 = p then acc else 0) -
        (if ((x :: rest).getLast (List.cons_ne_nil x rest)).1 = p then acc + total (x :: rest) else 0)
    := by
  induction rest generalizing acc x with
  | nil =>
    show 0 = _
    rw [jumpAt_cons]
    by_cases h : x.1 = p
    · simp [h, jumpAt, total, add_comm]
    · simp [h, jumpAt]
  | cons y rest ih =>
    rw [spans, List.flatMap_cons, jumpAt_append, ih, List.getLast_cons (List.cons_ne_nil y rest),
      Span.jumps, jumpAt_cons, jumpAt_cons, jumpAt_cons x, total_cons x, add_assoc acc]
    show _ = _ + _ - (if _ then acc + (x.2 + total (y :: rest)) else 0)
    by_cases hx : x.1 = p
    · by_cases hy : y.1 = p
      · simp only [hx, hy, if_true, jumpAt, List.filter_nil, List.map_nil, List.sum_nil]
        abel
      · simp only [hx, hy, if_true, if_false, jumpAt, List.filter_nil, List.map_nil, List.sum_nil]
        abel
    · by_cases hy : y.1 = p
      · simp only [hx, hy, if_true, if_false, jumpAt, List.filter_nil, List.map_nil, List.sum_nil]
        abel
      · simp only [hx, hy, if_false, jumpAt, List.filter_nil, List.map_nil, List.sum_nil]
        abel

variable [PartialOrder β] [IsOrderedAddMonoid β]

theorem height_bumps_nonneg {bumps : List (Span α β)}
    (h : ∀ b ∈ bumps, b.lower < b.upper ∧ 0 ≤ b.level) (x : α) :
    0 ≤ height (bumps.flatMap Span.jumps) x := by
  induction bumps with
  | nil => exact le_rfl
  | cons b bumps ih =>
    obtain ⟨hb, hbumps⟩ := List.forall_mem_cons.mp h
    rw [List.flatMap_cons, height_append, height_bump hb.1]
    apply add_nonneg _ (ih hbumps)
    by_cases hx : b.lower ≤ x ∧ x < b.upper
    · rw [if_pos hx]
      exact hb.2
    · rw [if_neg hx]

/-- A jump function that adds up to zero is nowhere negative exactly when its jumps are those of bumps
that are not negative. -/
theorem spans_nonneg_iff {jumps : List (α × β)} (h : Ascending jumps) (hzero : total jumps = 0) :
    (∀ s ∈ spans 0 jumps, 0 ≤ s.level) ↔
      ∃ bumps : List (Span α β), (∀ b ∈ bumps, b.lower < b.upper ∧ 0 ≤ b.level) ∧
        ∀ x, jumpAt jumps x = jumpAt (bumps.flatMap Span.jumps) x := by
  constructor
  · intro hlevels
    refine ⟨spans 0 jumps, fun s hs => ⟨lower_lt_upper h s hs, hlevels s hs⟩, fun x => ?_⟩
    cases jumps with
    | nil => rfl
    | cons j rest => simp only [jumpAt_spans, hzero, add_zero, ite_self, sub_zero]
  · rintro ⟨bumps, hbumps, hjumps⟩ s hs
    have hlevel := level_eq_height h hs le_rfl (lower_lt_upper h s hs)
    rw [hlevel, zero_add, height_congr hjumps]
    exact height_bumps_nonneg hbumps s.lower

end Order

end RpcStateIndexer.Reasoning
