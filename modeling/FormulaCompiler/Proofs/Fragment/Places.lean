import FormulaCompiler.Proofs.Fragment.Rendering
import FormulaCompiler.Proofs.Operator.Route
import FormulaCompiler.Proofs.Pass.Normal
import FormulaCompiler.Proofs.Tree.Typing

/-!
# Where locals stand in code

A local that keeps an integer is a float. Each of its occurrences is an operand of something: of a
cast, which narrows it back, of an operator, of a join of texts, or it is the whole expression. In
the code of a prepared formula only casts and joins have such an operand, and a join has one exactly
where a text is added to an integer variable. What the join then shows is not looked at here.
-/

namespace FormulaCompiler

/-- What an expression is a direct operand of. -/
inductive Place where
  | whole
  | cast
  | operator
  | joined
  deriving DecidableEq, Repr

/-- The locals of an expression that stands in a place, each with its own place, from left to
right. -/
def Code.localsAt : Place → Code → List (Place × String)
  | place, .localVar name => [(place, name)]
  | _, .literal _ | _, .field _ | _, .read _ _ => []
  | _, .cast operand _ => operand.localsAt .cast
  | _, .unary _ operand => operand.localsAt .operator
  | _, .binary _ left right => left.localsAt .operator ++ right.localsAt .operator
  | _, .concat left right => left.localsAt .joined ++ right.localsAt .joined

/-- Where a typed operator puts its operands. -/
def BinaryOp.place (op : BinaryOp) (l r ty : Ty) : Place :=
  if op = .add ∧ ty = .text then .joined
  else if l.isNumeric ∧ r.isNumeric then .cast
  else .operator

/-- Where a unary operator puts its operand. -/
def UnaryOp.place : UnaryOp → Place
  | .neg => .cast
  | .not => .operator

theorem UnaryOp.localsAt_code (op : UnaryOp) (ty : Ty) (f : Fragment) (place : Place) :
    (op.code ty f).localsAt place = f.code.localsAt op.place := by
  cases op <;> rfl

namespace BinaryOp

/-- A sum of numbers is no text. -/
theorem not_joined {op : BinaryOp} {l r ty : Ty} (hl : l.isNumeric = true)
    (hr : r.isNumeric = true) (h : op.resultType? l r = some ty) : ¬ (op = .add ∧ ty = .text) := by
  intro hjoin
  obtain ⟨rfl, rfl⟩ := hjoin
  cases l <;> cases r <;> simp_all [resultType?, sumType?, Ty.promote?, Ty.isNumeric]

theorem eq_of_joined {op : BinaryOp} {l r ty : Ty} (h : op.place l r ty = .joined) :
    op = .add ∧ ty = .text := by
  unfold place at h
  split at h
  · assumption
  · split at h <;> cases h

theorem place_of_numbers {op : BinaryOp} {l r ty : Ty} (hl : l.isNumeric = true)
    (hr : r.isNumeric = true) (h : op.resultType? l r = some ty) : op.place l r ty = .cast := by
  rw [place, if_neg (not_joined hl hr h), if_pos ⟨hl, hr⟩]

/-- The code of a typed operator has the locals of its operands, both in the operator's place. -/
theorem localsAt_code {op : BinaryOp} {ty : Ty} {f g : Fragment}
    (h : op.resultType? f.ty g.ty = some ty) (place : Place) :
    (op.code ty f g).localsAt place =
      f.code.localsAt (op.place f.ty g.ty ty) ++ g.code.localsAt (op.place f.ty g.ty ty) := by
  obtain ⟨c, l⟩ := f
  obtain ⟨d, r⟩ := g
  cases route h with
  | ints hd h =>
      have hplace : op.place .int .int ty = .cast := place_of_numbers rfl rfl h
      rw [code_ints hd rfl rfl h, hplace]
      rfl
  | floats hl hr hm h =>
      have hplace : op.place l r ty = .cast := place_of_numbers hl hr h
      rw [code_floats hm h, hplace]
      rfl
  | texts =>
      rw [code_texts]
      rfl
  | alike ho ht =>
      rw [code_alike (f := ⟨c, l⟩) (g := ⟨d, l⟩) ho rfl rfl ht]
      rcases ho with rfl | rfl <;> rcases ht with rfl | rfl | rfl <;> rfl
  | bools ho =>
      rw [code_bools ho]
      rcases ho with rfl | rfl <;> rfl

theorem mem_localsAt_left {op : BinaryOp} {ty : Ty} {f g : Fragment} {found : Place × String}
    (h : op.resultType? f.ty g.ty = some ty)
    (hmem : found ∈ f.code.localsAt (op.place f.ty g.ty ty)) (place : Place) :
    found ∈ (op.code ty f g).localsAt place := by
  rw [localsAt_code h]
  exact List.mem_append_left _ hmem

theorem mem_localsAt_right {op : BinaryOp} {ty : Ty} {f g : Fragment} {found : Place × String}
    (h : op.resultType? f.ty g.ty = some ty)
    (hmem : found ∈ g.code.localsAt (op.place f.ty g.ty ty)) (place : Place) :
    found ∈ (op.code ty f g).localsAt place := by
  rw [localsAt_code h]
  exact List.mem_append_right _ hmem

/-- Operators that do not cast have no integer among their operands, joins apart. -/
theorem place_of_integer {op : BinaryOp} {l r ty : Ty} (h : op.resultType? l r = some ty)
    (hint : l = .int ∨ r = .int) : op.place l r ty = .cast ∨ op.place l r ty = .joined := by
  cases route h with
  | ints hd h => exact .inl (place_of_numbers rfl rfl h)
  | floats hl hr _ h => exact .inl (place_of_numbers hl hr h)
  | texts => exact .inr rfl
  | alike _ ht => rcases ht with rfl | rfl | rfl <;> simp at hint
  | bools _ => simp at hint

end BinaryOp

namespace Store

/-- The node is a variable of integer type. -/
def ReadsInteger (s : Store) (ctx : Context) (id : NodeId) : Prop :=
  ∃ n, s.inspect id = .ok (n, .var) ∧ ctx.typeOf n.label = .int

/-- The node is a sum that is a text, and one of its operands is an integer variable. -/
def JoinsInteger (s : Store) (ctx : Context) (id : NodeId) : Prop :=
  ∃ n l r, s.inspect id = .ok (n, .binary .add l r) ∧ s.nodeType ctx id = .ok .text ∧
    (s.ReadsInteger ctx l ∨ s.ReadsInteger ctx r)

section Prepared

variable {s : Store} {ctx : Context} {id : NodeId} {n : Node}

theorem PreparedFrom.nodeType_const (hp : s.PreparedFrom id) {v : Value}
    (hi : s.inspect id = .ok (n, .const v)) : s.nodeType ctx id = .ok v.ty := by
  have he := hp.suits hi
  rw [nodeType_ok ctx hi]
  cases hem : n.emission with
  | inPlace => exact inPlaceType_const ctx hi
  | hoisted w ty =>
      rw [hem] at he
      obtain ⟨hk, rfl⟩ := he
      cases hk
      rfl
  | cached inner =>
      rw [hem] at he
      cases he.2

theorem PreparedFrom.nodeType_var (hp : s.PreparedFrom id) (hi : s.inspect id = .ok (n, .var)) :
    s.nodeType ctx id = .ok (ctx.typeOf n.label) := by
  have he := hp.suits hi
  rw [nodeType_ok ctx hi, ← inPlaceType_var ctx hi]
  cases hem : n.emission with
  | inPlace => rfl
  | hoisted w ty =>
      rw [hem] at he
      cases he.1
  | cached inner =>
      rw [hem] at he
      obtain ⟨rfl, -⟩ := he
      rfl

end Prepared
end Store

/-- Names tell the locals of a scope apart. -/
theorem Scope.Sound.local_inj {ctx : Context} {u : Scope} (hu : u.Sound ctx)
    {r r' : CachedRead LocalRead} (hr : r ∈ u.locals) (hr' : r' ∈ u.locals)
    (hname : r.name = r'.name) : r = r' := by
  have hfound := find?_key_of_mem hu.localNames hr
  rw [hname, find?_key_of_mem hu.localNames hr'] at hfound
  exact (Option.some.inj hfound).symm

namespace Rendered

variable {s : Store} {ctx : Context} {u : Scope} {id : NodeId} {f : Fragment}

/-- A fragment has the static type of its node. -/
theorem nodeType (h : Rendered s ctx u id f) (hs : s.Acyclic) (hp : s.PreparedFrom id) :
    s.nodeType ctx id = .ok f.ty := by
  induction h with
  | const hi => exact hp.nodeType_const hi
  | field hi _ => exact hp.nodeType_const hi
  | read hi _ => exact hp.nodeType_var hi
  | cached hi _ _ _ => exact hp.nodeType_var hi
  | @unary id x n op f ty hi _ ht ihx =>
      have hem : n.emission = .inPlace := (hp.suits hi).inPlace_unary
      rw [Store.nodeType_ok ctx hi, hem]
      change s.inPlaceType ctx id = _
      rw [hs.inPlaceType_unary ctx hi, ihx (hp.below (Store.child_of_unary hi))]
      exact (op.typeAt_eq_ok_iff ..).mpr ht
  | @binary id l r n op f g ty hi _ _ ht ihl ihr =>
      obtain ⟨hcl, hcr⟩ := Store.child_of_binary hi
      have hem : n.emission = .inPlace := (hp.suits hi).inPlace_binary
      rw [Store.nodeType_ok ctx hi, hem]
      change s.inPlaceType ctx id = _
      rw [hs.inPlaceType_binary ctx hi, ihl (hp.below hcl), ihr (hp.below hcr)]
      exact (op.typeAt_eq_ok_iff ..).mpr ht

/-- An integer variable that is cached is rendered as a local. -/
theorem held_integer (h : Rendered s ctx u id f) (hc : s.ReadsCachedFrom id)
    (hreads : s.ReadsInteger ctx id) :
    ∃ r ∈ u.locals, ctx.typeOf r.text = .int ∧
      ∀ place, (place, r.name) ∈ f.code.localsAt place := by
  obtain ⟨n, hi, hint⟩ := hreads
  have he := hc id (.refl s id) n hi
  cases h with
  | const hi' => cases hi.symm.trans hi'
  | field hi' _ => cases hi.symm.trans hi'
  | read hi' he' =>
      cases hi.symm.trans hi'
      rw [he] at he'
      cases he'
  | cached hi' _ hr ht =>
      cases hi.symm.trans hi'
      exact ⟨_, hr, ht ▸ hint, fun place => List.mem_singleton.mpr rfl⟩
  | unary hi' _ _ => cases hi.symm.trans hi'
  | binary hi' _ _ _ => cases hi.symm.trans hi'

/-- A local that keeps an integer is an operand of a cast or of a join, unless it is the fragment
itself. -/
theorem cast_or_joined (h : Rendered s ctx u id f) (hu : u.Sound ctx) {r : CachedRead LocalRead}
    (hr : r ∈ u.locals) (hint : ctx.typeOf r.text = .int) {place found : Place}
    (hmem : (found, r.name) ∈ f.code.localsAt place) :
    found = .cast ∨ found = .joined ∨
      (found = place ∧ f.ty = .int ∧
        ∃ n, s.inspect id = .ok (n, .var) ∧ n.emission.isCached = true) := by
  induction h generalizing place found with
  | const hi => cases hmem
  | field hi _ => cases hmem
  | read hi _ => cases hmem
  | @cached id n r' hi he hr' ht =>
      obtain ⟨rfl, hname⟩ : found = place ∧ r.name = r'.name := by
        simpa [Code.localsAt] using hmem
      obtain rfl := hu.local_inj hr hr' hname
      exact .inr (.inr ⟨rfl, ht ▸ hint, n, hi, he⟩)
  | @unary id x n op f ty hi _ ht ihx =>
      rw [UnaryOp.localsAt_code] at hmem
      rcases ihx hmem with hcast | hjoined | ⟨hplace, hfint, -⟩
      · exact .inl hcast
      · exact .inr (.inl hjoined)
      · cases op with
        | neg => exact .inl hplace
        | not => simp [UnaryOp.resultType?, hfint] at ht
  | @binary id l r n op f g ty hi _ _ ht ihl ihr =>
      rw [BinaryOp.localsAt_code ht] at hmem
      have settle : ∀ hint : f.ty = .int ∨ g.ty = .int, found = op.place f.ty g.ty ty →
          found = .cast ∨ found = .joined := by
        intro hint hplace
        rw [hplace]
        exact BinaryOp.place_of_integer ht hint
      rcases List.mem_append.mp hmem with hmem | hmem
      · rcases ihl hmem with hcast | hjoined | ⟨hplace, hfint, -⟩
        · exact .inl hcast
        · exact .inr (.inl hjoined)
        · exact (settle (.inl hfint) hplace).imp_right .inl
      · rcases ihr hmem with hcast | hjoined | ⟨hplace, hgint, -⟩
        · exact .inl hcast
        · exact .inr (.inl hjoined)
        · exact (settle (.inr hgint) hplace).imp_right .inl

/-- A join has an integer local as its operand only where the formula adds an integer variable to a
text. The fragment itself is that operand, or the sum is further down. -/
theorem joins_of_joined (h : Rendered s ctx u id f) (hs : s.Acyclic) (hp : s.PreparedFrom id)
    (hu : u.Sound ctx) {r : CachedRead LocalRead} (hr : r ∈ u.locals)
    (hint : ctx.typeOf r.text = .int) {place : Place}
    (hmem : (.joined, r.name) ∈ f.code.localsAt place) :
    (∃ other, s.Reaches id other ∧ s.JoinsInteger ctx other) ∨
      (place = .joined ∧ s.ReadsInteger ctx id) := by
  have further : ∀ {id child : NodeId}, s.Child id child →
      (∃ other, s.Reaches child other ∧ s.JoinsInteger ctx other) →
      ∃ other, s.Reaches id other ∧ s.JoinsInteger ctx other := by
    intro id child hc hbelow
    obtain ⟨other, hreach, hjoins⟩ := hbelow
    exact ⟨other, hreach.below hc, hjoins⟩
  induction h generalizing place with
  | const hi => cases hmem
  | field hi _ => cases hmem
  | read hi _ => cases hmem
  | @cached id n r' hi he hr' ht =>
      obtain ⟨rfl, hname⟩ : .joined = place ∧ r.name = r'.name := by
        simpa [Code.localsAt] using hmem
      obtain rfl := hu.local_inj hr hr' hname
      exact .inr ⟨rfl, n, hi, ht ▸ hint⟩
  | @unary id x n op f ty hi _ ht ihx =>
      have hcx := Store.child_of_unary hi
      rw [UnaryOp.localsAt_code] at hmem
      rcases ihx (hp.below hcx) hmem with hbelow | ⟨hplace, -⟩
      · exact .inl (further hcx hbelow)
      · cases op <;> cases hplace
  | @binary id l r n op f g ty hi hl hr ht ihl ihr =>
      obtain ⟨hcl, hcr⟩ := Store.child_of_binary hi
      have hself := (Rendered.binary hi hl hr ht).nodeType hs hp
      have sum : op.place f.ty g.ty ty = .joined →
          s.ReadsInteger ctx l ∨ s.ReadsInteger ctx r → s.JoinsInteger ctx id := by
        intro hplace hreads
        obtain ⟨rfl, rfl⟩ := BinaryOp.eq_of_joined hplace
        exact ⟨n, l, r, hi, hself, hreads⟩
      rw [BinaryOp.localsAt_code ht] at hmem
      rcases List.mem_append.mp hmem with hmem | hmem
      · rcases ihl (hp.below hcl) hmem with hbelow | ⟨hplace, hreads⟩
        · exact .inl (further hcl hbelow)
        · exact .inl ⟨id, .refl s id, sum hplace (.inl hreads)⟩
      · rcases ihr (hp.below hcr) hmem with hbelow | ⟨hplace, hreads⟩
        · exact .inl (further hcr hbelow)
        · exact .inl ⟨id, .refl s id, sum hplace (.inr hreads)⟩

/-- Where the formula adds an integer variable to a text and all variables are cached, a join has an
integer local as its operand, in whatever place the fragment stands. -/
theorem joined_of_joins (h : Rendered s ctx u id f) (hs : s.Acyclic) (hp : s.PreparedFrom id)
    (hc : s.ReadsCachedFrom id) {other : NodeId} (hreach : s.Reaches id other)
    (hjoins : s.JoinsInteger ctx other) :
    ∃ r ∈ u.locals, ctx.typeOf r.text = .int ∧
      ∀ place, (.joined, r.name) ∈ f.code.localsAt place := by
  obtain ⟨m, l', r', hm, htext, hreads⟩ := hjoins
  have leaf : ∀ {id : NodeId} {n : Node} {shape : Shape}, s.Reaches id other →
      s.inspect id = .ok (n, shape) → shape.children = [] → False := by
    intro id n shape hreach hi hnil
    rcases Relation.ReflTransGen.cases_head hreach with rfl | ⟨child, hchild, -⟩
    · cases hi.symm.trans hm
      cases hnil
    · simp [Store.child_iff hi, hnil] at hchild
  induction h with
  | const hi => exact (leaf hreach hi rfl).elim
  | field hi _ => exact (leaf hreach hi rfl).elim
  | read hi _ => exact (leaf hreach hi rfl).elim
  | cached hi _ _ _ => exact (leaf hreach hi rfl).elim
  | @unary id x n op f ty hi _ ht ihx =>
      rcases Relation.ReflTransGen.cases_head hreach with rfl | ⟨child, hchild, hrest⟩
      · cases hi.symm.trans hm
      · obtain rfl : child = x := by
          simpa [Shape.children] using (Store.child_iff hi child).mp hchild
        obtain ⟨r, hr, hint, hmem⟩ := ihx (hp.below hchild) (hc.below hchild) hrest
        refine ⟨r, hr, hint, fun place => ?_⟩
        rw [UnaryOp.localsAt_code]
        exact hmem _
  | @binary id l r n op f g ty hi hl hr ht ihl ihr =>
      obtain ⟨hcl, hcr⟩ := Store.child_of_binary hi
      rcases Relation.ReflTransGen.cases_head hreach with rfl | ⟨child, hchild, hrest⟩
      · -- The sum is this node, and the operand that is a variable is its local.
        have hself := (Rendered.binary hi hl hr ht).nodeType hs hp
        cases hi.symm.trans hm
        obtain rfl : .text = ty := Except.ok.inj (htext.symm.trans hself)
        have hplace : BinaryOp.place .add f.ty g.ty .text = .joined := if_pos ⟨rfl, rfl⟩
        rcases hreads with hreads | hreads
        · obtain ⟨r, hr', hint, hmem⟩ := hl.held_integer (hc.below hcl) hreads
          exact ⟨r, hr', hint, BinaryOp.mem_localsAt_left ht (hplace ▸ hmem .joined)⟩
        · obtain ⟨r, hr', hint, hmem⟩ := hr.held_integer (hc.below hcr) hreads
          exact ⟨r, hr', hint, BinaryOp.mem_localsAt_right ht (hplace ▸ hmem .joined)⟩
      · obtain rfl | rfl : child = l ∨ child = r := by
          simpa [Shape.children] using (Store.child_iff hi child).mp hchild
        · obtain ⟨r, hr', hint, hmem⟩ := ihl (hp.below hchild) (hc.below hchild) hrest
          exact ⟨r, hr', hint, BinaryOp.mem_localsAt_left ht (hmem _)⟩
        · obtain ⟨r, hr', hint, hmem⟩ := ihr (hp.below hchild) (hc.below hchild) hrest
          exact ⟨r, hr', hint, BinaryOp.mem_localsAt_right ht (hmem _)⟩

end Rendered
end FormulaCompiler
