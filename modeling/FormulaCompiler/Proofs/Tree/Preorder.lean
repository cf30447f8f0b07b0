import FormulaCompiler.BuildError
import FormulaCompiler.Proofs.Tree.Fitting

/-!
# The first misfit of a formula

`Store.preorder` lists a formula depth first, each id before its children and these from left to
right. Dangling ids are listed like all others, and a shared node stands in the list once for each
path to it. The report on the first misfit in this order is what every walk over the formula has to
come to; rewriting changes neither which misfit comes first nor what the report says.
-/

namespace FormulaCompiler.Store

/-- The children that a node has, which need not be as many as its kind asks for. -/
def childrenOf (s : Store) (id : NodeId) : List NodeId :=
  match s.get? id with
  | none => []
  | some n => n.children

/-- The listing cut off below `depth` nodes. -/
def preorderWithin (s : Store) : Nat → NodeId → List NodeId
  | 0, _ => []
  | depth + 1, id => id :: (s.childrenOf id).flatMap (s.preorderWithin depth)

/-- The ids of a formula, each before its children, which follow from left to right. -/
def preorder (s : Store) (root : NodeId) : List NodeId := s.preorderWithin s.depth root

/-- The id dangles, or names a node with another number of children than its kind asks for. -/
def MisfitAt (s : Store) (id : NodeId) : Prop :=
  ∀ n, s.get? id = some n → n.children.length ≠ n.kind.arity

/-- The id is the first misfit of the formula in preorder. -/
def FirstMisfit (s : Store) (root id : NodeId) : Prop :=
  s.MisfitAt id ∧ ∃ before after, s.preorder root = before ++ id :: after ∧
    ∀ other ∈ before, ¬ s.MisfitAt other

/-- What optimising reports of a misfit. -/
def misfitReport (s : Store) (id : NodeId) : BuildError :=
  match s.get? id with
  | none => .malformed .optimize id "" .missingNode
  | some n => .malformed .optimize id n.label (.childCount n.kind.arity n.children.length)

/-- What a walk reports when it comes to an id, if anything. -/
def report? (s : Store) (id : NodeId) : Option BuildError :=
  match s.inspect id with
  | .error m => some (m.buildError .optimize id)
  | .ok _ => none

/-- What a walk in preorder reports first. -/
def firstReport? (s : Store) (root : NodeId) : Option BuildError :=
  (s.preorder root).findSome? s.report?

variable {s t : Store} {root id : NodeId}

theorem mem_childrenOf {child : NodeId} : child ∈ s.childrenOf id ↔ s.Child id child := by
  unfold childrenOf Child
  split <;> rename_i h <;> simp [h]

theorem childrenOf_eq {n : Node} {shape : Shape} (hi : s.inspect id = .ok (n, shape)) :
    s.childrenOf id = shape.children := by
  obtain ⟨hn, hs⟩ := (s.inspect_eq_ok_iff id n shape).mp hi
  simp only [childrenOf, hn, ((n.shape?_eq_some_iff shape).mp hs).2]

section Order

/-- Any depth that suffices gives the same listing. -/
theorem preorderWithin_eq {depth depth' : Nat} (h : s.Shallow depth id)
    (h' : s.Shallow depth' id) : s.preorderWithin depth id = s.preorderWithin depth' id := by
  refine eq_of_shallow (F := s.preorderWithin) ?_ h h'
  intro depth depth' id below
  rw [preorderWithin, preorderWithin]
  congr 1
  exact List.flatMap_congr fun child hmem => below child (mem_childrenOf.mp hmem)

theorem Acyclic.preorder_eq (hs : s.Acyclic) (id : NodeId) :
    s.preorder id = id :: (s.childrenOf id).flatMap s.preorder := by
  show id :: (s.childrenOf id).flatMap (s.preorderWithin s.size) = _
  congr 1
  refine List.flatMap_congr fun child hmem => ?_
  exact preorderWithin_eq (hs.shallow id child (mem_childrenOf.mp hmem)) (hs.shallow child)

/-- The listing has the ids of the formula, and no others. -/
theorem Acyclic.mem_preorder_iff (hs : s.Acyclic) : id ∈ s.preorder root ↔ s.Reaches root id := by
  induction root using hs.induction with
  | step root ih =>
      have hbelow : (∃ child ∈ s.childrenOf root, id ∈ s.preorder child) ↔
          ∃ child, s.Child root child ∧ s.Reaches child id := by
        refine exists_congr fun child => ?_
        rw [mem_childrenOf]
        exact and_congr_right fun hc => ih child hc
      rw [hs.preorder_eq, List.mem_cons, List.mem_flatMap, hbelow, eq_comm]
      exact Relation.ReflTransGen.cases_head_iff.symm

end Order

section Reports

theorem report?_eq_some_iff {e : BuildError} :
    s.report? id = some e ↔ s.MisfitAt id ∧ e = s.misfitReport id := by
  unfold report? MisfitAt misfitReport inspect
  cases hn : s.get? id with
  | none => simp [Misfit.buildError, eq_comm]
  | some n =>
      cases hshape : n.shape? with
      | none =>
          have hcount := n.shape?_eq_none_iff.mp hshape
          simp [hshape, hcount, Misfit.buildError, eq_comm]
      | some shape =>
          have hcount : n.children.length = n.kind.arity :=
            n.shape?_isSome_iff.mp (by simp [hshape])
          simp [hshape, hcount]

theorem report?_eq_none_iff : s.report? id = none ↔ ¬ s.MisfitAt id := by
  constructor
  · intro h hmisfit
    have hsome := report?_eq_some_iff.mpr ⟨hmisfit, rfl⟩
    rw [h] at hsome
    cases hsome
  · intro h
    cases hr : s.report? id with
    | none => rfl
    | some e => exact absurd (report?_eq_some_iff.mp hr).1 h

theorem fitsFrom_iff_no_misfit :
    s.FitsFrom root ↔ ∀ id, s.Reaches root id → ¬ s.MisfitAt id := by
  refine forall_congr' fun id => imp_congr_right fun _ => ?_
  rw [← report?_eq_none_iff, report?]
  cases s.inspect id with
  | error m => simp
  | ok found => simp

/-- The first report is the one on the first misfit. -/
theorem firstReport?_eq_some_iff {e : BuildError} :
    s.firstReport? root = some e ↔ ∃ id, s.FirstMisfit root id ∧ e = s.misfitReport id := by
  rw [firstReport?, List.findSome?_eq_some_iff]
  constructor
  · intro h
    obtain ⟨before, id, after, hlist, hid, hbefore⟩ := h
    obtain ⟨hmisfit, he⟩ := report?_eq_some_iff.mp hid
    exact ⟨id, ⟨hmisfit, before, after, hlist,
      fun other hother => report?_eq_none_iff.mp (hbefore other hother)⟩, he⟩
  · intro h
    obtain ⟨id, ⟨hmisfit, before, after, hlist, hbefore⟩, he⟩ := h
    exact ⟨before, id, after, hlist, report?_eq_some_iff.mpr ⟨hmisfit, he⟩,
      fun other hother => report?_eq_none_iff.mpr (hbefore other hother)⟩

theorem Acyclic.firstReport?_eq_none_iff (hs : s.Acyclic) :
    s.firstReport? root = none ↔ s.FitsFrom root := by
  rw [firstReport?, List.findSome?_eq_none_iff, fitsFrom_iff_no_misfit]
  simp only [hs.mem_preorder_iff, report?_eq_none_iff]

theorem firstReport?_misfit {m : Misfit} (hi : s.inspect id = .error m) :
    s.firstReport? id = some (m.buildError .optimize id) := by
  have hself : s.report? id = some (m.buildError .optimize id) := by simp only [report?, hi]
  show List.findSome? s.report? (id :: _) = _
  simp only [List.findSome?_cons, hself]

/-- A node that fits has nothing to report but what its operands have. -/
theorem Acyclic.firstReport?_fitting (hs : s.Acyclic) {n : Node} {shape : Shape}
    (hi : s.inspect id = .ok (n, shape)) :
    s.firstReport? id = (shape.children.flatMap s.preorder).findSome? s.report? := by
  have hself : s.report? id = none := by simp only [report?, hi]
  simp only [firstReport?, hs.preorder_eq id, childrenOf_eq hi, List.findSome?_cons, hself]

theorem Acyclic.firstReport?_leaf (hs : s.Acyclic) {n : Node} {shape : Shape}
    (hi : s.inspect id = .ok (n, shape)) (hnil : shape.children = []) :
    s.firstReport? id = none := by
  rw [hs.firstReport?_fitting hi, hnil]
  rfl

theorem Acyclic.firstReport?_unary (hs : s.Acyclic) {n : Node} {op : UnaryOp} {x : NodeId}
    (hi : s.inspect id = .ok (n, .unary op x)) : s.firstReport? id = s.firstReport? x := by
  rw [hs.firstReport?_fitting hi]
  simp [Shape.children, firstReport?]

theorem Acyclic.firstReport?_binary (hs : s.Acyclic) {n : Node} {op : BinaryOp} {l r : NodeId}
    (hi : s.inspect id = .ok (n, .binary op l r)) :
    s.firstReport? id = (s.firstReport? l).or (s.firstReport? r) := by
  rw [hs.firstReport?_fitting hi]
  simp [Shape.children, firstReport?, List.findSome?_append]

/-- Rewriting changes no report. Where it may have hidden nodes, below one with a value of its own,
there was nothing to report. -/
theorem Rewrites.firstReport?_eq {caching : Bool} (h : Rewrites caching s t) (hs : s.Acyclic)
    (id : NodeId) : t.firstReport? id = s.firstReport? id := by
  have ht := h.acyclic hs
  induction id using hs.induction with
  | step id ih =>
      by_cases hfixed : s.Fixed id
      · have hfit := hs.fitsFrom_of_fixed hfixed
        rw [hs.firstReport?_eq_none_iff.mpr hfit,
          ht.firstReport?_eq_none_iff.mpr ((h.fitsFrom_iff hs).mpr hfit)]
      · have hview := h.view_eq hs hfixed
        rcases hi : s.inspect id with m | ⟨n, shape⟩
        · rw [firstReport?_misfit hi, firstReport?_misfit (view_misfit hview hi)]
        · obtain ⟨n', hi', -⟩ := view_ok hview hi
          cases shape with
          | const v => rw [hs.firstReport?_leaf hi rfl, ht.firstReport?_leaf hi' rfl]
          | var => rw [hs.firstReport?_leaf hi rfl, ht.firstReport?_leaf hi' rfl]
          | unary op x =>
              rw [hs.firstReport?_unary hi, ht.firstReport?_unary hi', ih x (child_of_unary hi)]
          | binary op l r =>
              obtain ⟨hl, hr⟩ := child_of_binary hi
              rw [hs.firstReport?_binary hi, ht.firstReport?_binary hi', ih l hl, ih r hr]

/-- The left operand of an operator reports first. -/
theorem Acyclic.firstReport?_left (hs : s.Acyclic) {n : Node} {op : BinaryOp} {l r : NodeId}
    (hi : s.inspect id = .ok (n, .binary op l r)) {e : BuildError}
    (hl : s.firstReport? l = some e) : s.firstReport? id = some e := by
  rw [hs.firstReport?_binary hi, hl, Option.some_or]

/-- When the left operand has nothing to report the right one decides, also in a store that was
rewritten since. -/
theorem Rewrites.firstReport?_right {caching : Bool} (h : Rewrites caching s t) (hs : s.Acyclic)
    {n : Node} {op : BinaryOp} {l r : NodeId} (hi : s.inspect id = .ok (n, .binary op l r))
    (hl : s.firstReport? l = none) : t.firstReport? r = s.firstReport? id := by
  rw [h.firstReport?_eq hs, hs.firstReport?_binary hi, hl, Option.none_or]

end Reports
end FormulaCompiler.Store
