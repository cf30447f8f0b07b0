import FormulaCompiler.Fragment.Basic

/-!
# The routes of an operator

An operator that typing accepts takes one of five routes, decided by the types of its operands: two
integers, two numbers as floats, texts that are joined, equal types that are compared, or two
booleans. Its code has one form on each route, and so has what it computes.
-/

namespace FormulaCompiler

/-- Text formatting can show a value of this type. -/
def Ty.isShown : Ty → Bool
  | .null | .dynamic => false
  | _ => true

theorem Ty.promote?_eq_int {l r : Ty} (h : l.promote? r = some .int) : l = .int ∧ r = .int := by
  cases l <;> cases r <;> simp_all [promote?]

namespace BinaryOp

theorem sumType?_of_promote? {l r t : Ty} (h : l.promote? r = some t) : sumType? l r = some t := by
  cases l <;> cases r <;> simp_all [Ty.promote?, sumType?]

/-- The ways in which a typed operator meets operands of the first two types. The third type is that
of the result. -/
inductive Route : BinaryOp → Ty → Ty → Ty → Prop
  | ints {op : BinaryOp} {ty : Ty} (hd : op ≠ .div) (h : op.resultType? .int .int = some ty) :
      Route op .int .int ty
  | floats {op : BinaryOp} {l r ty : Ty} (hl : l.isNumeric = true) (hr : r.isNumeric = true)
      (hf : op = .div ∨ l.promote? r = some .float) (h : op.resultType? l r = some ty) :
      Route op l r ty
  | texts {l r : Ty} (ht : l = .text ∨ r = .text) (hl : l.isShown = true)
      (hr : r.isShown = true) : Route .add l r .text
  | alike {op : BinaryOp} {t : Ty} (ho : op = .eq ∨ op = .ne)
      (ht : t = .bool ∨ t = .text ∨ t = .null) : Route op t t .bool
  | bools {op : BinaryOp} (ho : op = .and ∨ op = .or) : Route op .bool .bool .bool

theorem route_of_numbers {op : BinaryOp} {l r t ty : Ty} (hp : l.promote? r = some t)
    (h : op.resultType? l r = some ty) : Route op l r ty := by
  have hsome : (l.promote? r).isSome = true := by rw [hp]; rfl
  obtain ⟨hl, hr⟩ := (l.promote?_isSome_iff r).mp hsome
  by_cases hf : op = .div ∨ t = .float
  · refine .floats hl hr ?_ h
    rcases hf with hd | rfl
    · exact .inl hd
    · exact .inr hp
  · rw [not_or] at hf
    have ht : t = .int := by
      have hn := Ty.isNumeric_of_promote? hp
      cases t <;> simp_all [Ty.isNumeric]
    subst ht
    obtain ⟨rfl, rfl⟩ := Ty.promote?_eq_int hp
    exact .ints hf.1 h

/-- Every operator that typing accepts is on a route. -/
theorem route {op : BinaryOp} {l r ty : Ty} (h : op.resultType? l r = some ty) :
    Route op l r ty := by
  cases hp : l.promote? r with
  | some t => exact route_of_numbers hp h
  | none =>
      cases op with
      | sub | mul | div | mod | lt | le | gt | ge => simp [resultType?, hp] at h
      | add =>
          obtain ⟨rfl, ht, hl, hr⟩ : ty = .text ∧ (l = .text ∨ r = .text) ∧ l.isShown = true ∧
              r.isShown = true := by
            cases l <;> cases r <;> simp_all [resultType?, sumType?, Ty.promote?, Ty.isShown]
          exact .texts ht hl hr
      | eq | ne =>
          obtain ⟨rfl, rfl, ht⟩ : ty = .bool ∧ l = r ∧ (l = .bool ∨ l = .text ∨ l = .null) := by
            cases l <;> cases r <;> simp_all [resultType?, comparable, Ty.promote?]
          exact .alike (by simp) ht
      | and | or =>
          obtain ⟨⟨rfl, rfl⟩, rfl⟩ : (l = .bool ∧ r = .bool) ∧ .bool = ty := by
            simpa [resultType?] using h
          exact .bools (by simp)

section Code

variable {op : BinaryOp} {ty : Ty} {f g : Fragment}

theorem code_ints (hd : op ≠ .div) (hf : f.ty = .int) (hg : g.ty = .int)
    (h : op.resultType? .int .int = some ty) :
    op.code ty f g = .binary op (.cast f.code .i64) (.cast g.code .i64) := by
  cases op <;> simp_all [code, resultType?, sumType?, Ty.promote?, Ty.exprType, Ty.fieldType] <;>
    simp [← h]

theorem code_floats (hf : op = .div ∨ f.ty.promote? g.ty = some .float)
    (h : op.resultType? f.ty g.ty = some ty) :
    op.code ty f g = .binary op (.cast f.code .f64) (.cast g.code .f64) := by
  rcases hf with rfl | hp
  · simp [code]
  · have hsum := sumType?_of_promote? hp
    cases op with
    | and | or => cases hf : f.ty <;> cases hg : g.ty <;> simp_all [resultType?, Ty.promote?]
    | add =>
        have hty : ty = .float := by simpa [resultType?, hsum] using h.symm
        simp [code, hp, hty, Ty.exprType, Ty.fieldType]
    | sub | mul | div | mod | eq | ne | lt | le | gt | ge =>
        simp [code, hp, Ty.exprType, Ty.fieldType]

theorem code_texts : add.code .text f g = .concat f.code g.code := by simp [code]

theorem code_alike (ho : op = .eq ∨ op = .ne) {t : Ty} (hf : f.ty = t) (hg : g.ty = t)
    (ht : t = .bool ∨ t = .text ∨ t = .null) : op.code .bool f g = .binary op f.code g.code := by
  have hp : t.promote? t = none := by rcases ht with rfl | rfl | rfl <;> rfl
  rcases ho with rfl | rfl <;> simp [code, hf, hg, hp]

theorem code_bools (ho : op = .and ∨ op = .or) : op.code .bool f g = .binary op f.code g.code := by
  rcases ho with rfl | rfl <;> simp [code]

end Code

end BinaryOp
end FormulaCompiler
