import FormulaCompiler.Proofs.Generator.Session

/-!
# Names over histories

Any number of generators work side by side on common counters, one call after the other. A call
draws numbers that no earlier call has drawn, whether that one made a unit or failed half way, so
names can only meet where a stem is another one with digits behind it. No counter is reset in
between. Names that units take from elsewhere, such as variables, are not looked at.
-/

namespace FormulaCompiler

open Generator

/-- Generators at work on common counters. -/
structure Workshop (ι : Type) where
  generators : ι → Generator
  counters : Counters

/-- A call for the unit of a formula. -/
structure Call (ι : Type) where
  maker : ι
  ctx : Context
  tree : Tree

/-- A unit with its maker and what it is made of. -/
structure Product (ι : Type) where
  maker : ι
  unit : EvalUnit
  contents : Contents

namespace Workshop

variable {ι : Type}

/-- Between calls no generator holds reads. -/
def Idle (w : Workshop ι) : Prop := ∀ i, (w.generators i).Idle

/-- What a call gives and leaves behind. -/
def answer (w : Workshop ι) (call : Call ι) : Generation :=
  (w.generators call.maker).generate call.ctx w.counters call.tree

/-- The unit that a call makes, if it makes one. -/
def product? (w : Workshop ι) (call : Call ι) : Option (Product ι) :=
  match (w.answer call).result with
  | .ok unit =>
      some ⟨call.maker, unit,
        (w.generators call.maker).contents call.ctx w.counters call.tree⟩
  | .error _ => none

theorem Idle.onward {w : Workshop ι} (hw : w.Idle) (call : Call ι) :
    Onward (w.generators call.maker) w.counters (w.answer call) :=
  (hw call.maker).onward call.ctx w.counters call.tree

/-- Each name of a unit stands in a relation to its stem and to where its counter is now. -/
structure Named (R : String → Nat → String → Prop) (w : Workshop ι) (p : Product ι) : Prop where
  unit : R (w.generators p.maker).settings.unitStem
    (w.counters.peek (w.generators p.maker).unitCounter) p.unit.name
  fields : ∀ f ∈ p.contents.fields, R (w.generators p.maker).settings.fieldStem
    (w.counters.peek (w.generators p.maker).fieldCounter) f.name
  locals : ∀ r ∈ p.contents.locals, R (w.generators p.maker).settings.localStem
    (w.generators p.maker).locals.names.value r.name

/-- The unit's source shows its contents, and no name is declared twice in it. -/
structure Sound (w : Workshop ι) (p : Product ι) : Prop where
  source : p.unit.source =
    (w.generators p.maker).skeleton.fill (p.contents.parts p.unit.name)
  declared : p.contents.declared.Nodup

/-- No name of one unit meets a name of the other that comes from the same counter, unless a stem
prolongs a stem. -/
structure Apart (w : Workshop ι) (p q : Product ι) : Prop where
  units : (w.generators p.maker).unitCounter = (w.generators q.maker).unitCounter →
    StemsApart 1 (w.generators p.maker).settings.unitStem
      (w.generators q.maker).settings.unitStem →
    p.unit.name ≠ q.unit.name
  fields : (w.generators p.maker).fieldCounter = (w.generators q.maker).fieldCounter →
    StemsApart 1 (w.generators p.maker).settings.fieldStem
      (w.generators q.maker).settings.fieldStem →
    ∀ f ∈ p.contents.fields, ∀ f' ∈ q.contents.fields, f.name ≠ f'.name
  locals : p.maker = q.maker →
    ∀ r ∈ p.contents.locals, ∀ r' ∈ q.contents.locals, r.name ≠ r'.name

/-- What was drawn before is apart from what is drawn from now on. -/
theorem Named.apart {w : Workshop ι} {p q : Product ι} (hp : w.Named NumberedBelow p)
    (hq : w.Named NumberedFrom q) : w.Apart p q := by
  constructor
  · intro hcounter hstems
    have hunit := hp.unit
    rw [hcounter] at hunit
    exact hunit.ne_of_from hq.unit hstems
  · intro hcounter hstems f hf f' hf'
    have hfield := hp.fields f hf
    rw [hcounter] at hfield
    exact hfield.ne_of_from (hq.fields f' hf') hstems
  · intro hmaker r hr r' hr'
    have hlocal := hp.locals r hr
    rw [hmaker] at hlocal
    exact hlocal.ne_of_from (hq.locals r' hr') (stemsApart_self _)

variable [DecidableEq ι]

/-- The workshop after a call. -/
def after (w : Workshop ι) (call : Call ι) : Workshop ι :=
  { generators := fun i => if i = call.maker then (w.answer call).generator else w.generators i
    counters := (w.answer call).counters }

/-- The units that a sequence of calls makes, in order. -/
def products : Workshop ι → List (Call ι) → List (Product ι)
  | _, [] => []
  | w, call :: rest => (w.product? call).toList ++ (w.after call).products rest

theorem maker_after (w : Workshop ι) (call : Call ι) :
    (w.after call).generators call.maker = (w.answer call).generator :=
  if_pos rfl

theorem other_after (w : Workshop ι) (call : Call ι) {i : ι} (hi : i ≠ call.maker) :
    (w.after call).generators i = w.generators i :=
  if_neg hi

theorem generators_after (w : Workshop ι) (call : Call ι) (i : ι) :
    (w.after call).generators i =
      { w.generators i with locals := ((w.after call).generators i).locals } := by
  by_cases hi : i = call.maker
  · subst hi
    rw [maker_after]
    exact generator_generate ..
  · rw [other_after w call hi]

@[simp] theorem settings_after (w : Workshop ι) (call : Call ι) (i : ι) :
    ((w.after call).generators i).settings = (w.generators i).settings := by
  rw [generators_after]

@[simp] theorem skeleton_after (w : Workshop ι) (call : Call ι) (i : ι) :
    ((w.after call).generators i).skeleton = (w.generators i).skeleton := by
  rw [generators_after]

@[simp] theorem unitCounter_after (w : Workshop ι) (call : Call ι) (i : ι) :
    ((w.after call).generators i).unitCounter = (w.generators i).unitCounter := by
  rw [generators_after]

@[simp] theorem fieldCounter_after (w : Workshop ι) (call : Call ι) (i : ι) :
    ((w.after call).generators i).fieldCounter = (w.generators i).fieldCounter := by
  rw [generators_after]

variable {w : Workshop ι} {call : Call ι} {p q : Product ι}

theorem Idle.after (hw : w.Idle) (call : Call ι) : (w.after call).Idle := by
  intro i
  by_cases hi : i = call.maker
  · rw [hi, maker_after]
    exact (hw.onward call).idle
  · rw [other_after w call hi]
    exact hw i

theorem Idle.drawn_after (hw : w.Idle) (call : Call ι) (i : ι) :
    (w.generators i).locals.names.value ≤ ((w.after call).generators i).locals.names.value := by
  by_cases hi : i = call.maker
  · rw [hi, maker_after]
    exact (hw.onward call).drawn
  · rw [other_after w call hi]

/-- What is drawn after a call could have been drawn before it. -/
theorem Named.before (hw : w.Idle) (h : (w.after call).Named NumberedFrom p) :
    w.Named NumberedFrom p := by
  obtain ⟨hunit, hfields, hlocals⟩ := h
  simp only [settings_after, unitCounter_after, fieldCounter_after] at hunit hfields hlocals
  have hle := (hw.onward call).counters
  refine ⟨hunit.weaken (hle _), fun f hf => (hfields f hf).weaken (hle _), fun r hr => ?_⟩
  exact (hlocals r hr).weaken (hw.drawn_after call p.maker)

theorem Sound.before (h : (w.after call).Sound p) : w.Sound p :=
  ⟨by simpa only [skeleton_after] using h.source, h.declared⟩

theorem Apart.before (h : (w.after call).Apart p q) : w.Apart p q := by
  obtain ⟨hunits, hfields, hlocals⟩ := h
  simp only [settings_after, unitCounter_after, fieldCounter_after] at hunits hfields
  exact ⟨hunits, hfields, hlocals⟩

/-- A call that makes a unit draws its names: none was handed out before, all are afterwards. -/
theorem Idle.product? (hw : w.Idle) (h : w.product? call = some p) :
    w.Sound p ∧ w.Named NumberedFrom p ∧ (w.after call).Named NumberedBelow p := by
  unfold Workshop.product? at h
  split at h
  · rename_i unit hresult
    obtain rfl := Option.some.inj h
    obtain ⟨hsource, hnodup, ⟨n, hfirst, hlast, hname⟩, ⟨last, hle, hfields⟩, hlocals⟩ :=
      (hw call.maker).made hresult
    have hfield {f : Field} (hf : f ∈ Contents.fields _) :=
      numbered_of_mem_namesBetween (hfields ▸ List.mem_map_of_mem hf) hle
    have hlocal {r : CachedRead LocalRead} (hr : r ∈ Contents.locals _) :=
      numbered_of_mem_namesBetween (hlocals ▸ List.mem_map_of_mem hr) (Nat.le_refl _)
    refine ⟨⟨hsource, hnodup⟩, ⟨⟨n, hfirst, hname⟩, fun f hf => (hfield hf).1,
      fun r hr => (hlocal hr).1⟩, ?_⟩
    constructor
    · rw [settings_after, unitCounter_after]
      exact ⟨n, hlast, hname⟩
    · rw [settings_after, fieldCounter_after]
      exact fun f hf => (hfield hf).2
    · rw [settings_after, maker_after]
      exact fun r hr => (hlocal hr).2
  · cases h

/-- Over a sequence of calls: no name of its units was handed out before. -/
theorem Idle.products (hw : w.Idle) (calls : List (Call ι)) :
    ∀ p ∈ w.products calls, w.Sound p ∧ w.Named NumberedFrom p := by
  induction calls generalizing w with
  | nil =>
      intro p hp
      cases hp
  | cons call rest ih =>
      intro p hp
      rcases List.mem_append.mp hp with hp | hp
      · obtain ⟨hsound, hfrom, -⟩ := hw.product? (Option.mem_toList.mp hp)
        exact ⟨hsound, hfrom⟩
      · obtain ⟨hsound, hfrom⟩ := ih (hw.after call) p hp
        exact ⟨hsound.before, hfrom.before hw⟩

/-- Each call draws names apart from those of all later calls. -/
theorem Idle.products_apart (hw : w.Idle) (calls : List (Call ι)) :
    (w.products calls).Pairwise w.Apart := by
  induction calls generalizing w with
  | nil => exact .nil
  | cons call rest ih =>
      refine List.pairwise_append.mpr ⟨?_, ?_, fun p hp q hq => ?_⟩
      · cases w.product? call with
        | none => exact .nil
        | some p => exact List.pairwise_singleton ..
      · exact (ih (hw.after call)).imp Apart.before
      · -- The counters after the call separate its names from all later ones.
        obtain ⟨-, -, hbelow⟩ := hw.product? (Option.mem_toList.mp hp)
        obtain ⟨-, hfrom⟩ := (hw.after call).products rest q hq
        exact (hbelow.apart hfrom).before

/-- Fields are apart within a unit, where none is declared twice, and between units. -/
theorem Idle.fields_apart (hw : w.Idle) (calls : List (Call ι)) :
    ((w.products calls).flatMap fun p => p.contents.fields.map fun f => (p.maker, f)).Pairwise
      fun x y => (w.generators x.1).fieldCounter = (w.generators y.1).fieldCounter →
        StemsApart 1 (w.generators x.1).settings.fieldStem (w.generators y.1).settings.fieldStem →
        x.2.name ≠ y.2.name := by
  refine List.pairwise_flatMap.mpr ⟨fun p hp => ?_, (hw.products_apart calls).imp fun h => ?_⟩
  · have hnodup : (p.contents.fields.map (·.name)).Nodup :=
      (List.nodup_append.mp (hw.products calls p hp).1.declared).1
    refine List.pairwise_map.mpr ((List.pairwise_map.mp hnodup).imp ?_)
    exact fun hne _ _ => hne
  · intro x hx y hy
    obtain ⟨f, hf, rfl⟩ := List.mem_map.mp hx
    obtain ⟨f', hf', rfl⟩ := List.mem_map.mp hy
    exact fun hcounter hstems => h.fields hcounter hstems f hf f' hf'

theorem Idle.locals_nodup (hw : w.Idle) (calls : List (Call ι)) (i : ι) :
    (((w.products calls).filter (·.maker = i)).flatMap fun p =>
      p.contents.locals.map (·.name)).Nodup := by
  refine List.pairwise_flatMap.mpr ⟨fun p hp => ?_, ?_⟩
  · have hsound := (hw.products calls p (List.mem_filter.mp hp).1).1
    exact (List.nodup_append.mp hsound.declared).2.1
  · refine ((hw.products_apart calls).filter _).imp_of_mem fun {p q} hp hq h => ?_
    have hmaker : p.maker = q.maker := by
      have hpi := (List.mem_filter.mp hp).2
      have hqi := (List.mem_filter.mp hq).2
      simp only [decide_eq_true_eq] at hpi hqi
      rw [hpi, hqi]
    intro x hx y hy
    obtain ⟨r, hr, rfl⟩ := List.mem_map.mp hx
    obtain ⟨r', hr', rfl⟩ := List.mem_map.mp hy
    exact h.locals hmaker r hr r' hr'

end Workshop

/-- Generated names never meet, over any history. Of the units that any calls on any generators
make, two that draw on one unit counter differ in name, and so do two fields that draw on one field
counter, in one unit or in two, unless a stem is the other one with digits behind it. The locals of
one generator differ in name over all its units. -/
theorem names_never_meet {ι : Type} [DecidableEq ι] (w : Workshop ι)
    (hw : ∀ i, (w.generators i).InUse) (calls : List (Call ι)) :
    let made := w.products calls
    (∀ p ∈ made, p.unit.source =
      (w.generators p.maker).skeleton.fill (p.contents.parts p.unit.name)) ∧
    made.Pairwise (fun p q =>
      (w.generators p.maker).unitCounter = (w.generators q.maker).unitCounter →
      StemsApart 1 (w.generators p.maker).settings.unitStem
        (w.generators q.maker).settings.unitStem →
      p.unit.name ≠ q.unit.name) ∧
    (made.flatMap fun p => p.contents.fields.map fun f => (p.maker, f)).Pairwise (fun x y =>
      (w.generators x.1).fieldCounter = (w.generators y.1).fieldCounter →
      StemsApart 1 (w.generators x.1).settings.fieldStem (w.generators y.1).settings.fieldStem →
      x.2.name ≠ y.2.name) ∧
    ∀ i, ((made.filter (·.maker = i)).flatMap fun p => p.contents.locals.map (·.name)).Nodup := by
  intro made
  have hidle : w.Idle := fun i => (hw i).idle
  refine ⟨fun p hp => (hidle.products calls p hp).1.source, ?_, hidle.fields_apart calls,
    hidle.locals_nodup calls⟩
  exact (hidle.products_apart calls).imp fun h => h.units

/-- Two generators on one counter, which numbers units and fields alike; the second call fails. -/
theorem names_never_meet_heldSquare :
    let w : Workshop Bool :=
      { generators := fun i =>
          (if i then terse "U" "f" "v" else terse "V" "g" "v").withCounters .units .units
        counters := {} }
    let call (maker : Bool) (t : Tree) : Call Bool := ⟨maker, Bindings.empty.context, t⟩
    let made := w.products [call true heldSquare, call false brokenSum, call false heldSquare,
      call true heldSquare]
    made.map (·.unit.name) = ["U1", "V3", "U5"] ∧
    made.Pairwise (fun p q => p.unit.name ≠ q.unit.name) ∧
    ((made.filter (·.maker = true)).flatMap fun p => p.contents.locals.map (·.name)) =
      ["v0", "v1"] ∧
    ∀ i, ((made.filter (·.maker = i)).flatMap fun p => p.contents.locals.map (·.name)).Nodup := by
  intro w call made
  have hw : ∀ i, (w.generators i).InUse := by
    intro i
    cases i <;> exact (terse_inUse ..).withCounters ..
  have hcounter : ∀ i, (w.generators i).unitCounter = .units := fun i => rfl
  have hstems : ∀ i j, StemsApart 1 (w.generators i).settings.unitStem
      (w.generators j).settings.unitStem := by
    have huv : StemsApart 1 "U" "V" := stemsApart_of_incomparable (by decide) (by decide)
    intro i j
    cases i <;> cases j
    · exact stemsApart_self "V"
    · exact huv.symm
    · exact huv
    · exact stemsApart_self "U"
  obtain ⟨-, hunits, -, hlocals⟩ := names_never_meet w hw [call true heldSquare,
    call false brokenSum, call false heldSquare, call true heldSquare]
  refine ⟨by decide +kernel, hunits.imp fun {p q} h => ?_, by decide +kernel, hlocals⟩
  exact h (by rw [hcounter, hcounter]) (hstems p.maker q.maker)

end FormulaCompiler
