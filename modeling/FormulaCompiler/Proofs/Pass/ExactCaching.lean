import FormulaCompiler.Proofs.Pass.Repetition
import Mathlib.Data.Finset.Card

/-!
# Which nodes caching rebinds

Caching rebinds the variables of the formula that are no cached reads yet, and no other node. A
variable that is met again, through another operand, is a cached read by then, so that it is counted
once. Rebinding changes how a node enters code and nothing else of it, so that no path is lost and
two walks in a row see the same formula. A walk that breaks off has rebound some of these variables;
which of them it had met by then is not said here.
-/

namespace FormulaCompiler

open Store (Rewrites)

/-- The variable as a cached read, which keeps the way it entered code before. -/
def Node.rebound (n : Node) : Node := { n with emission := .cached n.emission }

namespace Store

/-- The node is a variable, with any number of children, and no cached read. -/
def UncachedAt (s : Store) (id : NodeId) : Prop :=
  ∃ n, s.get? id = some n ∧ n.kind = .var ∧ n.emission.isCached = false

/-- A variable of the formula that is no cached read. -/
def Rebindable (s : Store) (root id : NodeId) : Prop := s.Reaches root id ∧ s.UncachedAt id

/-- In the second store exactly these variables are rebound, and every other node is as it was. -/
structure Rebinds (ids : Finset NodeId) (s t : Store) : Prop where
  rebound : ∀ id ∈ ids, ∃ n, s.get? id = some n ∧ n.kind = .var ∧ n.emission.isCached = false ∧
    t.get? id = some n.rebound
  same : ∀ id, id ∉ ids → t.get? id = s.get? id

variable {s t u : Store} {root id : NodeId}

theorem rebindable_of_children {n : Node} {shape : Shape} (hi : s.inspect id = .ok (n, shape))
    (other : NodeId) :
    s.Rebindable id other ↔ (other = id ∧ s.UncachedAt id) ∨
      ∃ child ∈ shape.children, s.Rebindable child other := by
  constructor
  · intro h
    obtain ⟨hr, hvar⟩ := h
    rcases Relation.ReflTransGen.cases_head hr with rfl | ⟨child, hc, hrest⟩
    · exact .inl ⟨rfl, hvar⟩
    · exact .inr ⟨child, (child_iff hi child).mp hc, hrest, hvar⟩
  · intro h
    rcases h with ⟨rfl, hvar⟩ | ⟨child, hchild, hr, hvar⟩
    · exact ⟨Reaches.refl s _, hvar⟩
    · exact ⟨hr.below ((child_iff hi child).mpr hchild), hvar⟩

namespace Rebinds

variable {ids a b : Finset NodeId}

theorem refl (s : Store) : Rebinds ∅ s s := ⟨by simp, fun _ _ => rfl⟩

theorem one {n : Node} (hn : s.get? id = some n) (hk : n.kind = .var)
    (he : n.emission.isCached = false) :
    Rebinds {id} s (s.setEmission id (.cached n.emission)) := by
  constructor
  · intro other hother
    obtain rfl := Finset.mem_singleton.mp hother
    refine ⟨n, hn, hk, he, ?_⟩
    rw [get?_setEmission, if_pos rfl, hn]
    rfl
  · intro other hother
    rw [Finset.mem_singleton] at hother
    rw [get?_setEmission, if_neg (Ne.symm hother)]

theorem child_iff (h : Rebinds ids s t) {parent child : NodeId} :
    t.Child parent child ↔ s.Child parent child := by
  by_cases hparent : parent ∈ ids
  · obtain ⟨n, hn, -, -, hget⟩ := h.rebound parent hparent
    simp [Child, hn, hget, Node.rebound]
  · simp [Child, h.same parent hparent]

theorem reaches_iff (h : Rebinds ids s t) : t.Reaches root id ↔ s.Reaches root id := by
  have hchild : t.Child = s.Child := by
    funext parent child
    exact propext h.child_iff
  rw [Reaches, Reaches, hchild]

theorem uncachedAt_iff (h : Rebinds ids s t) : t.UncachedAt id ↔ s.UncachedAt id ∧ id ∉ ids := by
  by_cases hid : id ∈ ids
  · obtain ⟨n, -, -, -, hget⟩ := h.rebound id hid
    simp [UncachedAt, hget, hid, Node.rebound, Emission.isCached]
  · simp [UncachedAt, h.same id hid, hid]

/-- What is rebound is a cached read from then on, so that it is not rebound again. -/
theorem disjoint (h : Rebinds a s t) (h' : Rebinds b t u) : Disjoint a b := by
  rw [Finset.disjoint_right]
  intro id hb
  obtain ⟨n, hn, hk, he, -⟩ := h'.rebound id hb
  exact (h.uncachedAt_iff.mp ⟨n, hn, hk, he⟩).2

theorem trans (h : Rebinds a s t) (h' : Rebinds b t u) : Rebinds (a ∪ b) s u := by
  have hdisjoint := h.disjoint h'
  constructor
  · intro id hid
    rcases Finset.mem_union.mp hid with ha | hb
    · obtain ⟨n, hn, hk, he, hget⟩ := h.rebound id ha
      refine ⟨n, hn, hk, he, ?_⟩
      rw [h'.same id (Finset.disjoint_left.mp hdisjoint ha), hget]
    · obtain ⟨n, hn, hk, he, hget⟩ := h'.rebound id hb
      rw [h.same id (Finset.disjoint_right.mp hdisjoint hb)] at hn
      exact ⟨n, hn, hk, he, hget⟩
  · intro id hid
    obtain ⟨ha, hb⟩ := Finset.notMem_union.mp hid
    rw [h'.same id hb, h.same id ha]

/-- The node of an id, after the run, when it was there before. -/
theorem get?_cases (h : Rebinds ids s t) {n : Node} (hn : s.get? id = some n) :
    (id ∈ ids ∧ t.get? id = some n.rebound) ∨ (id ∉ ids ∧ t.get? id = some n) := by
  by_cases hid : id ∈ ids
  · obtain ⟨n', hn', -, -, hget⟩ := h.rebound id hid
    obtain rfl : n = n' := Option.some.inj (hn.symm.trans hn')
    exact .inl ⟨hid, hget⟩
  · exact .inr ⟨hid, (h.same id hid).trans hn⟩

end Rebinds
end Store

namespace ReadCaching

open Store (Rebinds)

/-- From the first store to the second, some variables below these roots are rebound. -/
def RebindsAmong (roots : List NodeId) (s t : Store) : Prop :=
  ∃ ids, Rebinds ids s t ∧ ∀ id ∈ ids, ∃ root ∈ roots, s.Rebindable root id

/-- From the first store to the second, all variables below these roots are rebound that are no
cached reads, and there are so many of them. -/
def RebindsBelow (roots : List NodeId) (s : Store) (count : Nat) (t : Store) : Prop :=
  ∃ ids, Rebinds ids s t ∧ (∀ id, id ∈ ids ↔ ∃ root ∈ roots, s.Rebindable root id) ∧
    count = ids.card

variable {roots later : List NodeId} {id : NodeId} {n : Node} {shape : Shape} {s t u : Store}
  {count count' : Nat}

theorem RebindsAmong.refl (roots : List NodeId) (s : Store) : RebindsAmong roots s s :=
  ⟨∅, Rebinds.refl s, by simp⟩

theorem RebindsBelow.among (h : RebindsBelow roots s count t) : RebindsAmong roots s t := by
  obtain ⟨ids, hrebinds, hids, -⟩ := h
  exact ⟨ids, hrebinds, fun id hid => (hids id).mp hid⟩

theorem RebindsAmong.append (h : RebindsAmong roots s t) (h' : RebindsAmong later t u) :
    RebindsAmong (roots ++ later) s u := by
  obtain ⟨a, hrebinds, ha⟩ := h
  obtain ⟨b, hrebinds', hb⟩ := h'
  refine ⟨a ∪ b, hrebinds.trans hrebinds', fun id hid => ?_⟩
  rcases Finset.mem_union.mp hid with hida | hidb
  · obtain ⟨root, hroot, hr⟩ := ha id hida
    exact ⟨root, List.mem_append_left _ hroot, hr⟩
  · obtain ⟨root, hroot, hr, hvar⟩ := hb id hidb
    exact ⟨root, List.mem_append_right _ hroot, hrebinds.reaches_iff.mp hr,
      (hrebinds.uncachedAt_iff.mp hvar).1⟩

/-- Whatever is below an operand is below the operator. -/
theorem RebindsAmong.above (hi : s.inspect id = .ok (n, shape)) (hroots : roots ⊆ shape.children)
    (h : RebindsAmong roots s t) : RebindsAmong [id] s t := by
  obtain ⟨ids, hrebinds, hids⟩ := h
  refine ⟨ids, hrebinds, fun other hother => ?_⟩
  obtain ⟨root, hroot, hr⟩ := hids other hother
  exact ⟨id, List.mem_singleton_self id,
    (Store.rebindable_of_children hi other).mpr (.inr ⟨root, hroots hroot, hr⟩)⟩

namespace RebindsBelow

theorem nil (s : Store) : RebindsBelow [] s 0 s := ⟨∅, Rebinds.refl s, by simp, by simp⟩

/-- The second walk sees the same paths as the first, and of the variables those that the first has
not rebound. -/
theorem append (h : RebindsBelow roots s count t) (h' : RebindsBelow later t count' u) :
    RebindsBelow (roots ++ later) s (count + count') u := by
  obtain ⟨a, hrebinds, ha, rfl⟩ := h
  obtain ⟨b, hrebinds', hb, rfl⟩ := h'
  refine ⟨a ∪ b, hrebinds.trans hrebinds', fun id => ?_,
    (Finset.card_union_of_disjoint (hrebinds.disjoint hrebinds')).symm⟩
  have hmem : (∃ root ∈ roots ++ later, s.Rebindable root id) ↔
      (∃ root ∈ roots, s.Rebindable root id) ∨ ∃ root ∈ later, s.Rebindable root id := by
    simp only [List.mem_append, or_and_right, exists_or]
  have hlater : (∃ root ∈ later, t.Rebindable root id) ↔
      (∃ root ∈ later, s.Rebindable root id) ∧ id ∉ a := by
    simp only [Store.Rebindable, hrebinds.reaches_iff, hrebinds.uncachedAt_iff, ← and_assoc,
      exists_and_right]
  rw [hmem, Finset.mem_union, hb, hlater, ← ha]
  by_cases hid : id ∈ a <;> simp [hid]

/-- A node that is no variable stays as it is. -/
theorem above (hi : s.inspect id = .ok (n, shape)) (hvar : shape ≠ .var)
    (h : RebindsBelow shape.children s count t) : RebindsBelow [id] s count t := by
  obtain ⟨ids, hrebinds, hids, hcount⟩ := h
  refine ⟨ids, hrebinds, fun other => ?_, hcount⟩
  have hself : ¬ (other = id ∧ s.UncachedAt id) := by
    intro h
    obtain ⟨-, n', hn', hk, -⟩ := h
    obtain rfl : n = n' := Option.some.inj (((s.inspect_eq_ok_iff id n _).mp hi).1.symm.trans hn')
    exact hvar (Shape.eq_var_of_kind ((Store.kind_of_inspect hi).symm.trans hk))
  simp only [hids, List.mem_singleton, exists_eq_left, Store.rebindable_of_children hi, hself,
    false_or]

end RebindsBelow

/-- A variable is rebound and counted, unless it is a cached read. -/
theorem rebind_exact (hi : s.inspect id = .ok (n, .var)) :
    Ends (rebind id n.emission) s (RebindsBelow [id] s) (fun _ _ => False) := by
  have hn := ((s.inspect_eq_ok_iff id n _).mp hi).1
  have hk : n.kind = .var := Store.kind_of_inspect hi
  have hself : ∀ other, s.Rebindable id other ↔ other = id ∧ s.UncachedAt id := by
    intro other
    simp [Store.rebindable_of_children hi, Shape.children]
  unfold Ends rebind
  cases he : n.emission.isCached with
  | true =>
      have hcached : ¬ s.UncachedAt id := by
        intro h
        obtain ⟨n', hn', -, he'⟩ := h
        obtain rfl : n = n' := Option.some.inj (hn.symm.trans hn')
        rw [he] at he'
        cases he'
      exact ⟨∅, Rebinds.refl s, by simp [hself, hcached], rfl⟩
  | false =>
      have hvar : s.UncachedAt id := ⟨n, hn, hk, he⟩
      exact ⟨{id}, Rebinds.one hn hk he, by simp [hself, hvar], rfl⟩

/-- Rebinding below a node. The induction is on the depth; the right operand is rebound in the store
that the left one leaves. -/
theorem rebindWithin_exact (depth : Nat) (id : NodeId) (s : Store) (hd : s.Shallow depth id) :
    Ends (rebindWithin depth id) s (RebindsBelow [id] s) (fun _ t => RebindsAmong [id] s t) := by
  induction depth generalizing id s with
  | zero => exact hd.elim
  | succ depth ih =>
      rcases hi : s.inspect id with m | ⟨n, shape⟩
      · exact Ends.of_eq (rebindWithin_misfit hi) (Ends.throw (RebindsAmong.refl _ s))
      · cases shape with
        | const v =>
            have hleaf := RebindsBelow.above hi (by simp) (RebindsBelow.nil s)
            exact Ends.of_eq (rebindWithin_const hi) (Ends.pure hleaf)
        | var =>
            exact Ends.of_eq (rebindWithin_var hi)
              ((rebind_exact hi).mono (fun _ _ h => h) fun _ _ h => h.elim)
        | unary op x =>
            refine Ends.of_eq (rebindWithin_unary hi) ?_
            refine (ih x s (hd x (Store.child_of_unary hi))).mono ?_ ?_
            · intro count t h
              exact RebindsBelow.above hi (by simp) h
            · intro e t h
              exact RebindsAmong.above hi (List.Subset.refl _) h
        | binary op l r =>
            obtain ⟨hcl, hcr⟩ := Store.child_of_binary hi
            have hl := (rebindWithin_ends depth l s).both (ih l s (hd l hcl))
            refine Ends.of_eq (rebindWithin_binary hi)
              ((hl.mono (fun _ _ h => h) fun e t h => ?_).bind ?_)
            · exact RebindsAmong.above hi (by simp [Shape.children]) h.2
            · intro lcount t h
              obtain ⟨hst, hlt⟩ := h
              have hr := ih r t (hst.shallow (hd r hcr))
              refine (hr.mono (fun _ _ h => h) fun e u h => ?_).bind ?_
              · exact RebindsAmong.above hi (List.Subset.refl _) (hlt.among.append h)
              · intro rcount u h
                exact Ends.pure (RebindsBelow.above hi (by simp) (hlt.append h))

theorem run_exact (ctx : Context) (root : NodeId) {s : Store} (hs : s.Acyclic) :
    Ends (run ctx root) s (fun o t => RebindsBelow [root] s o.changes t)
      (fun _ t => RebindsAmong [root] s t) := by
  have h := rebindWithin_exact s.depth root s (hs.shallow root)
  unfold Ends
  cases hr : rebindWithin s.depth root s with
  | ok count t =>
      simp only [run, hr]
      exact h.of_ok hr
  | error e t =>
      simp only [run, hr]
      exact h.of_error hr

end ReadCaching

/-- Caching that succeeds turns every variable of the formula that is no cached read into a cached
read of what it was. Every other node of the store is as it was, there are as many nodes as before,
and each variable that was rebound is counted once. When caching fails, some of these variables are
rebound and nothing else has changed, and a second run fails in the same way and changes nothing. -/
theorem readCaching_exact {s : Store} (hs : s.Acyclic) (root : NodeId) (ctx : Context) :
    Ends (Pass.readCaching.run ctx root) s
      (fun o t =>
        (∀ id n, s.get? id = some n →
          (s.Rebindable root id → t.get? id = some { n with emission := .cached n.emission }) ∧
          (¬ s.Rebindable root id → t.get? id = some n)) ∧
        t.size = s.size ∧
        ∃ rebound : Finset NodeId, (∀ id, id ∈ rebound ↔ s.Rebindable root id) ∧
          o.changes = rebound.card)
      (fun e t =>
        (∀ id n, s.get? id = some n → t.get? id = some n ∨
          s.Rebindable root id ∧ t.get? id = some { n with emission := .cached n.emission }) ∧
        t.size = s.size ∧
        ∀ ctx', Pass.readCaching.run ctx' root t = .error e t) := by
  have hends := ReadCaching.run_ends ctx root s
  have hagain := ReadCaching.run_repeats ctx root s hs
  refine ((hends.both hagain).both (ReadCaching.run_exact ctx root hs)).mono ?_ ?_
  · intro o t h
    obtain ⟨⟨hst, -⟩, ids, hrebinds, hids, hcount⟩ := h
    have hmem : ∀ id, id ∈ ids ↔ s.Rebindable root id := by simpa using hids
    refine ⟨fun id n hn => ?_, hst.size_eq, ids, hmem, hcount⟩
    rw [← hmem id]
    rcases hrebinds.get?_cases hn with ⟨hid, hget⟩ | ⟨hid, hget⟩
    · exact ⟨fun _ => hget, fun hnot => absurd hid hnot⟩
    · exact ⟨fun hin => absurd hin hid, fun _ => hget⟩
  · intro e t h
    obtain ⟨⟨hst, hrepeat⟩, ids, hrebinds, hids⟩ := h
    refine ⟨fun id n hn => ?_, hst.size_eq, fun ctx' => hrepeat t (Rewrites.refl t)⟩
    rcases hrebinds.get?_cases hn with ⟨hid, hget⟩ | ⟨-, hget⟩
    · obtain ⟨_, hroot, hr⟩ := hids id hid
      rw [List.mem_singleton.mp hroot] at hr
      exact .inr ⟨hr, hget⟩
    · exact .inl hget

/-- `(x + y) * (x + y)` with the sum shared and `y` read from a field, beside a `z` that no one
mentions. -/
def sharedReads : Store :=
  ⟨#[.binary .mul ⟨1⟩ ⟨1⟩, .binary .add ⟨2⟩ ⟨3⟩, .var "x",
    { Node.var "y" with emission := .hoisted (.int 5) .int }, .var "z"]⟩

/-- A difference of `x` and a conjunction whose left side dangles, so that `w` is not met. -/
def brokenDifference : Store :=
  ⟨#[.binary .sub ⟨1⟩ ⟨2⟩, .var "x", .binary .and ⟨9⟩ ⟨3⟩, .var "w"]⟩

/-- Two variables are rebound, counted once each although they are met twice. In the formula that is
broken the first variable stays rebound, and nothing changes the second time. -/
theorem readCaching_exact_sharedReads :
    let ctx := Bindings.empty.context
    let cached : Store :=
      ⟨#[.binary .mul ⟨1⟩ ⟨1⟩, .binary .add ⟨2⟩ ⟨3⟩,
        { Node.var "x" with emission := .cached .inPlace },
        { Node.var "y" with emission := .cached (.hoisted (.int 5) .int) }, .var "z"]⟩
    let broken : Store :=
      ⟨#[.binary .sub ⟨1⟩ ⟨2⟩, { Node.var "x" with emission := .cached .inPlace },
        .binary .and ⟨9⟩ ⟨3⟩, .var "w"]⟩
    let e := BuildError.malformed .optimize ⟨9⟩ "" .missingNode
    Pass.readCaching.run ctx ⟨0⟩ sharedReads = .ok ⟨⟨0⟩, 2⟩ cached ∧
    (∃ rebound : Finset NodeId, (∀ id, id ∈ rebound ↔ sharedReads.Rebindable ⟨0⟩ id) ∧
      2 = rebound.card) ∧
    Pass.readCaching.run ctx ⟨0⟩ brokenDifference = .error e broken ∧
    Pass.readCaching.run ctx ⟨0⟩ broken = .error e broken := by
  intro ctx cached broken e
  have hacyclic : sharedReads.Acyclic :=
    Store.acyclic_of_rank (fun id => 9 - id.index) (by decide)
  have hacyclic' : brokenDifference.Acyclic :=
    Store.acyclic_of_rank (fun id => 9 - id.index) (by decide)
  have hrun : Pass.readCaching.run ctx ⟨0⟩ sharedReads = .ok ⟨⟨0⟩, 2⟩ cached := by
    with_unfolding_all rfl
  have hrun' : Pass.readCaching.run ctx ⟨0⟩ brokenDifference = .error e broken := by
    with_unfolding_all rfl
  obtain ⟨-, -, hrebound⟩ := (readCaching_exact hacyclic ⟨0⟩ ctx).of_ok hrun
  obtain ⟨-, -, hagain⟩ := (readCaching_exact hacyclic' ⟨0⟩ ctx).of_error hrun'
  exact ⟨hrun, hrebound, hrun', hagain ctx⟩

end FormulaCompiler
