import FormulaCompiler.Proofs.Fragment.Rendering
import FormulaCompiler.Proofs.Naming
import FormulaCompiler.Proofs.Transcript

/-!
# Caches of reads under any requests

A cache is asked for fresh names, to take reads under any text and name, and to forget them. What it
holds can be told from the transcript: the reads it has taken since it was last cleared. Texts and
names stay without repetition and the index gives each text the place of its read, so that looking
up and refusing go by the reads alone. Fresh names differ over the whole transcript, whatever was
refused or cleared in between, and are to be had until the counter ends.
-/

namespace FormulaCompiler.ReadCache

variable {α : Type}

/-- What a cache can be asked for. -/
inductive Request (α : Type) where
  | fresh
  | insert (text name : String) (body : α)
  | clear
  deriving DecidableEq, Repr

/-- What it replies. -/
inductive Reply where
  | named (name : String)
  | taken
  | refused (clash : Clash)
  | cleared
  deriving DecidableEq, Repr

/-- The reply to a request and the cache that the request leaves. -/
def answer (c : ReadCache α) : Request α → Reply × ReadCache α
  | .fresh =>
      match c.freshName with
      | .ok name c' => (.named name, c')
      | .error clash c' => (.refused clash, c')
  | .insert text name body =>
      match c.insert text name body with
      | .ok _ c' => (.taken, c')
      | .error clash c' => (.refused clash, c')
  | .clear => (.cleared, c.clear)

/-- The reads that are held after an exchange, when these were held before it. -/
def hold (held : List (CachedRead α)) : Request α × Reply → List (CachedRead α)
  | (.insert text name body, .taken) => held ++ [⟨text, name, body⟩]
  | (.clear, _) => []
  | _ => held

/-- The reads that were taken since the last clearing, oldest first. -/
def takenSinceClear (log : List (Request α × Reply)) : List (CachedRead α) := log.foldl hold []

/-- The name that a reply hands out. -/
def Reply.name? : Reply → Option String
  | .named name => some name
  | _ => none

/-- The fresh names that were handed out, oldest first. -/
def handedOut (log : List (Request α × Reply)) : List String := log.filterMap (·.2.name?)

section Exchanges

variable (log : List (Request α × Reply)) (exchange : Request α × Reply)

theorem takenSinceClear_append :
    takenSinceClear (log ++ [exchange]) = hold (takenSinceClear log) exchange := by
  simp [takenSinceClear]

theorem handedOut_append :
    handedOut (log ++ [exchange]) = handedOut log ++ exchange.2.name?.toList := by
  rw [handedOut, List.filterMap_append]
  cases hname : exchange.2.name? <;> simp [handedOut, hname]

end Exchanges

/-- A read is added if its text and its name are new; otherwise the cache stays as it is. -/
theorem insert_ends (c : ReadCache α) (text name : String) (body : α) :
    ((∀ r ∈ c.toList, r.text ≠ text ∧ r.name ≠ name) ∧
      ∃ c', c.insert text name body = .ok ⟨⟩ c' ∧ c'.stem = c.stem ∧ c'.names = c.names ∧
        c'.toList = c.toList ++ [⟨text, name, body⟩]) ∨
    (∃ r ∈ c.toList, r.text = text ∨ r.name = name) ∧
      ∃ clash, c.insert text name body = .error clash c := by
  by_cases htext : ∃ r ∈ c.toList, r.text = text
  · have hinsert := insert_of_cached htext name body
    obtain ⟨r, hr, htext⟩ := htext
    exact .inr ⟨⟨r, hr, .inl htext⟩, _, hinsert⟩
  have hnew : ∀ r ∈ c.toList, r.text ≠ text := fun r hr heq => htext ⟨r, hr, heq⟩
  by_cases hname : ∃ r ∈ c.toList, r.name = name
  · have hinsert := insert_of_declared hnew hname body
    obtain ⟨r, hr, hname⟩ := hname
    exact .inr ⟨⟨r, hr, .inr hname⟩, _, hinsert⟩
  have hfree : ∀ r ∈ c.toList, r.name ≠ name := fun r hr heq => hname ⟨r, hr, heq⟩
  have hinsert := insert_of_new ((c.new_iff text).mpr hnew) hfree body
  exact .inl ⟨fun r hr => ⟨hnew r hr, hfree r hr⟩, _, hinsert, rfl, rfl, toList_add ..⟩

/-- A read is refused exactly if its text or its name is there. -/
theorem insert_refused_iff (c : ReadCache α) (text name : String) (body : α) :
    (∃ clash c', c.insert text name body = .error clash c') ↔
      ∃ r ∈ c.toList, r.text = text ∨ r.name = name := by
  rcases c.insert_ends text name body with ⟨hfree, c', hinsert, -⟩ | ⟨htaken, clash, hinsert⟩
  · refine iff_of_false ?_ ?_
    · intro hrefused
      obtain ⟨clash, c'', hrefused⟩ := hrefused
      cases hinsert.symm.trans hrefused
    · intro htaken
      obtain ⟨r, hr, htaken⟩ := htaken
      exact htaken.elim (hfree r hr).1 (hfree r hr).2
  · exact iff_of_true ⟨clash, c, hinsert⟩ htaken

theorem eq_of_insert_refused {c c' : ReadCache α} {text name : String} {body : α} {clash : Clash}
    (h : c.insert text name body = .error clash c') : c' = c := by
  rcases c.insert_ends text name body with ⟨-, c'', hinsert, -⟩ | ⟨-, clash', hinsert⟩
  · cases hinsert.symm.trans h
  · cases hinsert.symm.trans h
    rfl

/-- What the cache holds agrees with the transcript. The counter stands where the numbers that were
handed out from `first` on end. Texts are left out, because no table in step repeats one. -/
structure Consistent (stem : String) (first : Nat)
    (t : Transcript (Request α) Reply (ReadCache α)) : Prop where
  stem_eq : t.state.stem = stem
  counter : first ≤ t.state.names.value
  held : t.state.toList = takenSinceClear t.log
  names : (t.state.toList.map (·.name)).Nodup
  handed : handedOut t.log = namesBetween stem first t.state.names.value

namespace Consistent

variable {stem : String} {first : Nat} {t : Transcript (Request α) Reply (ReadCache α)}

theorem start (stem : String) (names : Counter) :
    Consistent stem names.value { state := ({ stem, names } : ReadCache α) } where
  stem_eq := rfl
  counter := Nat.le_refl _
  held := rfl
  names := List.nodup_nil
  handed := by simp [handedOut, namesBetween]

/-- A request that is refused counts for nothing. -/
theorem refused (h : Consistent stem first t) {request : Request α} {clash : Clash}
    (hanswer : t.state.answer request = (.refused clash, t.state)) :
    Consistent stem first (t.ask answer request) := by
  have hheld : takenSinceClear (t.log ++ [(request, .refused clash)]) = takenSinceClear t.log := by
    rw [takenSinceClear_append]
    cases request with
    | clear => cases hanswer
    | fresh => rfl
    | insert text name body => rfl
  unfold Transcript.ask
  rw [hanswer]
  refine ⟨h.stem_eq, h.counter, h.held.trans hheld.symm, h.names, ?_⟩
  rw [handedOut_append, h.handed]
  exact List.append_nil _

theorem fresh (h : Consistent stem first t) : Consistent stem first (t.ask answer .fresh) := by
  by_cases hleft : t.state.names.value < Counter.last
  · have hanswer : t.state.answer .fresh =
        (.named (numbered t.state.stem t.state.names.value),
          { t.state with names := ⟨t.state.names.value + 1⟩ }) := by
      simp only [answer, freshName_of_lt hleft]
    unfold Transcript.ask
    rw [hanswer]
    refine ⟨h.stem_eq, Nat.le_succ_of_le h.counter, ?_, h.names, ?_⟩
    · rw [takenSinceClear_append]
      exact h.held
    · rw [handedOut_append, h.handed, namesBetween_succ stem h.counter, ← h.stem_eq]
      rfl
  · have hanswer : t.state.answer .fresh = (.refused .localNumbersExhausted, t.state) := by
      simp only [answer, freshName_of_le (Nat.not_lt.mp hleft)]
    exact h.refused hanswer

theorem clear (h : Consistent stem first t) : Consistent stem first (t.ask answer .clear) where
  stem_eq := h.stem_eq
  counter := h.counter
  held := by
    show [] = takenSinceClear (t.log ++ _)
    rw [takenSinceClear_append]
    rfl
  names := List.nodup_nil
  handed := by
    show handedOut (t.log ++ _) = namesBetween stem first t.state.names.value
    rw [handedOut_append, h.handed]
    exact List.append_nil _

theorem insert (h : Consistent stem first t) (text name : String) (body : α) :
    Consistent stem first (t.ask answer (.insert text name body)) := by
  rcases t.state.insert_ends text name body with
    ⟨hfree, c, hinsert, hstem, hnumbers, hlist⟩ | ⟨-, clash, hinsert⟩
  · have hanswer : t.state.answer (.insert text name body) = (.taken, c) := by
      simp only [answer, hinsert]
    unfold Transcript.ask
    rw [hanswer]
    refine ⟨hstem.trans h.stem_eq, ?_, ?_, ?_, ?_⟩
    · rw [hnumbers]
      exact h.counter
    · rw [takenSinceClear_append, hlist, h.held]
      rfl
    · rw [hlist]
      exact nodup_names_append h.names (by simpa using fun r hr => (hfree r hr).2)
    · rw [handedOut_append, h.handed, hnumbers]
      exact List.append_nil _
  · have hanswer : t.state.answer (.insert text name body) = (.refused clash, t.state) := by
      simp only [answer, hinsert]
    exact h.refused hanswer

/-- One request of any kind. -/
theorem ask (h : Consistent stem first t) (request : Request α) :
    Consistent stem first (t.ask answer request) := by
  cases request with
  | fresh => exact h.fresh
  | clear => exact h.clear
  | insert text name body => exact h.insert text name body

end Consistent

/-- A cache that starts empty stays consistent under any requests. It holds the reads it has taken
since it was last cleared, in order, no two of them with one text or one name. Its index gives each
text the place of the read that has it, so looking up finds these and no others. A read is refused
exactly if its text or name is there, and the cache is left as it was. A fresh name is to be had
until the counter ends, and none is handed out twice. -/
theorem cache_consistent (stem : String) (names : Counter) (requests : List (Request α)) :
    let t := Transcript.of answer { stem, names } requests
    t.log.map (·.1) = requests ∧
    t.state.toList = takenSinceClear t.log ∧
    (t.state.toList.map (·.text)).Nodup ∧ (t.state.toList.map (·.name)).Nodup ∧
    (∀ text i, t.state.table.position? text = some i ↔
      ∃ r, t.state.toList[i]? = some r ∧ r.text = text) ∧
    (∀ text name, t.state.get? text = some name ↔
      ∃ r ∈ t.state.toList, r.text = text ∧ r.name = name) ∧
    (∀ text name body, ((∃ clash c, t.state.insert text name body = .error clash c) ↔
        ∃ r ∈ t.state.toList, r.text = text ∨ r.name = name) ∧
      ∀ clash c, t.state.insert text name body = .error clash c → c = t.state) ∧
    (t.state.names.value < Counter.last →
      ∃ name c, t.state.freshName = .ok name c ∧ name ∉ handedOut t.log) ∧
    (handedOut t.log).Nodup := by
  intro t
  have h : Consistent stem names.value t :=
    Transcript.of_keeps answer (fun _ request ht => ht.ask request) (.start stem names) requests
  refine ⟨Transcript.map_fst_log answer _ requests, h.held, t.state.inStep.2, h.names,
    fun text i => t.state.inStep.position?_eq_some_iff, fun text name => get?_eq_some_iff,
    fun text name body => ⟨insert_refused_iff t.state text name body, ?_⟩, ?_, ?_⟩
  · intro clash c hinsert
    exact eq_of_insert_refused hinsert
  · intro hleft
    refine ⟨_, _, freshName_of_lt hleft, ?_⟩
    rw [h.handed, ← h.stem_eq]
    -- All numbers that were handed out lie below the counter.
    intro hmem
    obtain ⟨n, hn, hname⟩ := (numbered_of_mem_namesBetween hmem (Nat.le_refl _)).2
    rw [numbered_inj] at hname
    omega
  · rw [h.handed]
    exact nodup_namesBetween ..

/-- Two reads are refused, one for its text and one for its name, and after clearing the cache takes
both of them again. -/
theorem cache_consistent_refilled :
    let requests : List (Request Nat) := [.fresh, .insert "a" "v0" 1, .insert "a" "v1" 2,
      .insert "b" "v0" 3, .fresh, .clear, .insert "b" "v0" 4, .insert "a" "v1" 5, .fresh]
    let t := Transcript.of answer { stem := "v" } requests
    t.log.map (·.2) = [.named "v0", .taken, .refused (.readCached "a"),
      .refused (.localDeclared "v0"), .named "v1", .cleared, .taken, .taken, .named "v2"] ∧
    t.state.toList = [⟨"b", "v0", 4⟩, ⟨"a", "v1", 5⟩] ∧
    t.state.toList = takenSinceClear t.log ∧
    t.state.table.position? "a" = some 1 ∧
    (∃ clash c, t.state.insert "c" "v1" 6 = .error clash c) ∧
    (∃ name c, t.state.freshName = .ok name c ∧ name ∉ handedOut t.log) ∧
    (handedOut t.log).Nodup := by
  intro requests t
  obtain ⟨-, hheld, -, -, hindex, -, hinsert, hfresh, hhanded⟩ :=
    cache_consistent "v" {} requests
  have hlist : t.state.toList = [⟨"b", "v0", 4⟩, ⟨"a", "v1", 5⟩] := by decide +kernel
  have hread : t.state.toList[1]? = some ⟨"a", "v1", 5⟩ := by rw [hlist]; rfl
  refine ⟨by decide +kernel, hlist, hheld, (hindex "a" 1).mpr ⟨_, hread, rfl⟩, ?_,
    hfresh (by decide +kernel), hhanded⟩
  exact (hinsert "c" "v1" 6).1.mpr ⟨_, List.mem_of_getElem? hread, .inr rfl⟩

-- The last number but one is handed out, the last one is not.
example : ((Transcript.of answer ({ stem := "v", names := ⟨Counter.last - 1⟩ } : ReadCache Nat)
    [.fresh, .fresh, .clear, .fresh]).log.map (·.2)) =
    [.named "v18446744073709551614", .refused .localNumbersExhausted, .cleared,
      .refused .localNumbersExhausted] := by
  decide +kernel

end FormulaCompiler.ReadCache
