import FormulaCompiler.Field
import FormulaCompiler.Proofs.Naming
import FormulaCompiler.Proofs.Transcript

/-!
# Queues of fields on one counter

Any number of queues draw their numbers from one counter, which others draw on too. Pushing,
popping, draining and drawing come in any order. Each queue gives back what was pushed on it, first
in first out, and the number in a name is the count of what was drawn before. Once the counter has
come to its end nothing more can be pushed, and nothing is lost by trying. A counter that is reset
is left aside.
-/

namespace FormulaCompiler

/-- Queues and the counter that they draw on. -/
structure QueuePool (ι : Type) where
  queues : ι → FieldQueue
  counter : Counter

namespace QueuePool

variable {ι : Type}

/-- What can be asked of the queues and of their counter. -/
inductive Request (ι : Type) where
  | push (queue : ι) (value : Value) (ty : Ty)
  | pop (queue : ι)
  | drain (queue : ι)
  | next
  deriving DecidableEq, Repr

/-- What is replied. -/
inductive Reply where
  | named (name : String)
  | popped (field? : Option Field)
  | drained (fields : List Field)
  | number (n : Nat)
  | exhausted
  deriving DecidableEq, Repr

/-- The request asks the counter for a number. -/
def Request.draws : Request ι → Bool
  | .push _ _ _ | .next => true
  | .pop _ | .drain _ => false

/-- The field that an exchange has queued under the name in its reply, with its queue. -/
def pushed? : Request ι × Reply → Option (ι × Field)
  | (.push i value ty, .named name) => some (i, ⟨name, value, ty⟩)
  | _ => none

/-- All pushes in order. -/
def pushes (log : List (Request ι × Reply)) : List (ι × Field) := log.filterMap pushed?

/-- How many numbers were asked for. -/
def drawn (log : List (Request ι × Reply)) : Nat := log.countP (·.1.draws)

theorem pushes_append (log : List (Request ι × Reply)) (exchange : Request ι × Reply) :
    pushes (log ++ [exchange]) = pushes log ++ pushes [exchange] :=
  List.filterMap_append

theorem pushes_single (exchange : Request ι × Reply) :
    pushes [exchange] = (pushed? exchange).toList := by
  cases h : pushed? exchange <;> simp [pushes, h]

theorem drawn_append (log : List (Request ι × Reply)) (exchange : Request ι × Reply) :
    drawn (log ++ [exchange]) = drawn log + drawn [exchange] :=
  List.countP_append

variable [DecidableEq ι]

/-- The fields that were pushed on a queue, in order. -/
def pushedOn (i : ι) (log : List (Request ι × Reply)) : List Field :=
  (pushes log).filterMap fun push => if push.1 = i then some push.2 else none

/-- The fields that were popped and drained from a queue, in order. -/
def takenFrom (i : ι) (log : List (Request ι × Reply)) : List Field :=
  log.flatMap fun exchange =>
    match exchange with
    | (.pop j, .popped field?) => if j = i then field?.toList else []
    | (.drain j, .drained fields) => if j = i then fields else []
    | _ => []

/-- The pool with another state of one queue. -/
def set (p : QueuePool ι) (i : ι) (q : FieldQueue) : QueuePool ι :=
  { p with queues := fun j => if j = i then q else p.queues j }

/-- The reply to a request and the pool after it. -/
def answer (p : QueuePool ι) : Request ι → Reply × QueuePool ι
  | .push i value ty =>
      match (p.queues i).push p.counter value ty with
      | .ok name (q, counter) => (.named name, { p.set i q with counter })
      | .error _ (q, counter) => (.exhausted, { p.set i q with counter })
  | .pop i =>
      match (p.queues i).pop? with
      | none => (.popped none, p)
      | some (f, q) => (.popped (some f), p.set i q)
  | .drain i =>
      let (fields, q) := (p.queues i).drain
      (.drained fields, p.set i q)
  | .next =>
      match p.counter.next with
      | .ok n counter => (.number n, { p with counter })
      | .error _ counter => (.exhausted, { p with counter })

section Logs

variable (log : List (Request ι × Reply)) (exchange : Request ι × Reply)

theorem pushedOn_append (i : ι) :
    pushedOn i (log ++ [exchange]) = pushedOn i log ++ pushedOn i [exchange] := by
  rw [pushedOn, pushes_append, List.filterMap_append]
  rfl

theorem takenFrom_append (i : ι) :
    takenFrom i (log ++ [exchange]) = takenFrom i log ++ takenFrom i [exchange] :=
  List.flatMap_append

end Logs

section Answer

variable (p : QueuePool ι)

theorem queues_set (i j : ι) (q : FieldQueue) :
    (p.set i q).queues j = if j = i then q else p.queues j := rfl

theorem set_self (i : ι) : p.set i (p.queues i) = p := by
  simp only [set]
  congr
  funext j
  by_cases hij : j = i
  · rw [if_pos hij, hij]
  · rw [if_neg hij]

theorem answer_pop_empty {i : ι} (h : (p.queues i).pop? = none) :
    p.answer (.pop i) = (.popped none, p) := by
  simp only [answer, h]

theorem answer_pop {i : ι} {f : Field} {q : FieldQueue} (h : (p.queues i).pop? = some (f, q)) :
    p.answer (.pop i) = (.popped (some f), p.set i q) := by
  simp only [answer, h]

/-- A push names the field with the number at which the counter stands. -/
theorem answer_push (h : p.counter.value < Counter.last) (i : ι) (value : Value) (ty : Ty) :
    let name := numbered (p.queues i).stem p.counter.value
    p.answer (.push i value ty) =
      (.named name,
        { p.set i ((p.queues i).add ⟨name, value, ty⟩) with counter := ⟨p.counter.value + 1⟩ }) := by
  simp only [answer, FieldQueue.push_of_lt h]

theorem answer_next (h : p.counter.value < Counter.last) :
    p.answer .next =
      (.number p.counter.value, { p with counter := ⟨p.counter.value + 1⟩ }) := by
  simp only [answer, Counter.next_of_lt h]

/-- At the counter's end, a request for a number changes nothing. -/
theorem answer_exhausted (h : Counter.last ≤ p.counter.value) {request : Request ι}
    (hdraws : request.draws = true) : p.answer request = (.exhausted, p) := by
  cases request with
  | push i value ty =>
      simp only [answer, FieldQueue.push_of_le h]
      rw [set_self]
  | next => simp only [answer, Counter.next_of_le h]
  | pop i => cases hdraws
  | drain i => cases hdraws

/-- A queue keeps its stem. -/
theorem stem_answer (request : Request ι) (i : ι) :
    ((p.answer request).2.queues i).stem = (p.queues i).stem := by
  have hset : ∀ (j : ι) (q : FieldQueue), q.stem = (p.queues j).stem →
      ((p.set j q).queues i).stem = (p.queues i).stem := by
    intro j q hq
    rw [queues_set]
    by_cases hij : i = j
    · rw [if_pos hij, hq, hij]
    · rw [if_neg hij]
  by_cases hend : request.draws = true ∧ Counter.last ≤ p.counter.value
  · rw [p.answer_exhausted hend.2 hend.1]
  cases request with
  | push j value ty =>
      have hleft : p.counter.value < Counter.last :=
        Nat.not_le.mp fun hle => hend ⟨rfl, hle⟩
      rw [p.answer_push hleft]
      exact hset j _ (FieldQueue.stem_add ..)
  | pop j =>
      cases hpop : (p.queues j).pop? with
      | none => rw [p.answer_pop_empty hpop]
      | some found =>
          rw [p.answer_pop hpop]
          exact hset j found.2 (FieldQueue.toList_of_pop? hpop).2
  | drain j => exact hset j _ rfl
  | next =>
      have hleft : p.counter.value < Counter.last :=
        Nat.not_le.mp fun hle => hend ⟨rfl, hle⟩
      rw [p.answer_next hleft]

/-- Until its end, the counter goes on by what was drawn. -/
theorem counter_answer (request : Request ι) :
    (p.answer request).2.counter.value =
      if p.counter.value < Counter.last then
        p.counter.value + drawn [(request, (p.answer request).1)]
      else p.counter.value := by
  cases request with
  | push j value ty =>
      by_cases hleft : p.counter.value < Counter.last
      · rw [if_pos hleft, p.answer_push hleft]
        rfl
      · rw [if_neg hleft, p.answer_exhausted (Nat.not_lt.mp hleft) rfl]
  | pop j =>
      cases hpop : (p.queues j).pop? with
      | none =>
          rw [p.answer_pop_empty hpop]
          exact (ite_self _).symm
      | some found =>
          rw [p.answer_pop hpop]
          exact (ite_self _).symm
  | drain j => exact (ite_self _).symm
  | next =>
      by_cases hleft : p.counter.value < Counter.last
      · rw [if_pos hleft, p.answer_next hleft]
        rfl
      · rw [if_neg hleft, p.answer_exhausted (Nat.not_lt.mp hleft) rfl]

theorem reply_push (i : ι) (value : Value) (ty : Ty) :
    (p.answer (.push i value ty)).1 =
      if p.counter.value < Counter.last then
        .named (numbered (p.queues i).stem p.counter.value)
      else .exhausted := by
  by_cases hleft : p.counter.value < Counter.last
  · rw [if_pos hleft, p.answer_push hleft]
  · rw [if_neg hleft, p.answer_exhausted (Nat.not_lt.mp hleft) rfl]

/-- What a request takes from a queue and leaves in it was in it or is pushed on it. -/
theorem fields_answer (request : Request ι) (i : ι) :
    takenFrom i [(request, (p.answer request).1)] ++ ((p.answer request).2.queues i).toList =
      (p.queues i).toList ++ pushedOn i [(request, (p.answer request).1)] := by
  by_cases hend : request.draws = true ∧ Counter.last ≤ p.counter.value
  · rw [p.answer_exhausted hend.2 hend.1]
    simp [takenFrom, pushedOn, pushes, pushed?]
  cases request with
  | push j value ty =>
      have hleft : p.counter.value < Counter.last :=
        Nat.not_le.mp fun hle => hend ⟨rfl, hle⟩
      rw [p.answer_push hleft]
      by_cases hij : i = j
      · subst hij
        simp [takenFrom, pushedOn, pushes, pushed?, queues_set]
      · simp [takenFrom, pushedOn, pushes, pushed?, queues_set, hij, Ne.symm hij]
  | pop j =>
      cases hpop : (p.queues j).pop? with
      | none =>
          rw [p.answer_pop_empty hpop]
          simp [takenFrom, pushedOn, pushes, pushed?]
      | some found =>
          obtain ⟨f, q⟩ := found
          have hlist := (FieldQueue.toList_of_pop? hpop).1
          rw [p.answer_pop hpop]
          by_cases hij : i = j
          · subst hij
            simp [takenFrom, pushedOn, pushes, pushed?, queues_set, hlist]
          · simp [takenFrom, pushedOn, pushes, pushed?, queues_set, hij, Ne.symm hij]
  | drain j =>
      by_cases hij : i = j
      · subst hij
        simp [answer, takenFrom, pushedOn, pushes, pushed?, queues_set]
      · simp [answer, takenFrom, pushedOn, pushes, pushed?, queues_set, hij, Ne.symm hij]
  | next =>
      have hleft : p.counter.value < Counter.last :=
        Nat.not_le.mp fun hle => hend ⟨rfl, hle⟩
      rw [p.answer_next hleft]
      simp [takenFrom, pushedOn, pushes, pushed?]

/-- A request pushes no field but one with the number at which the counter stands, which goes on. -/
theorem pushes_answer (request : Request ι) :
    ∀ push ∈ pushes [(request, (p.answer request).1)],
      push.2.name = numbered (p.queues push.1).stem p.counter.value ∧
        p.counter.value < (p.answer request).2.counter.value := by
  intro push hpush
  cases request with
  | push j value ty =>
      by_cases hleft : p.counter.value < Counter.last
      · obtain rfl : push = (j, ⟨numbered (p.queues j).stem p.counter.value, value, ty⟩) := by
          simpa [pushes, pushed?, reply_push, hleft] using hpush
        refine ⟨rfl, ?_⟩
        rw [p.answer_push hleft]
        exact Nat.lt_succ_self _
      · simp [pushes, pushed?, reply_push, hleft] at hpush
  | pop j => simp [pushes, pushed?] at hpush
  | drain j => simp [pushes, pushed?] at hpush
  | next => simp [pushes, pushed?] at hpush

end Answer

/-- What the queues hold and how the fields are named agrees with the transcript. -/
structure Faithful (stems : ι → String) (start : Nat)
    (t : Transcript (Request ι) Reply (QueuePool ι)) : Prop where
  stem_eq : ∀ i, (t.state.queues i).stem = stems i
  counter : if start + drawn t.log ≤ Counter.last then t.state.counter.value = start + drawn t.log
    else Counter.last ≤ t.state.counter.value
  fields : ∀ i, takenFrom i t.log ++ (t.state.queues i).toList = pushedOn i t.log
  replies : ∀ before i value ty reply after,
    t.log = before ++ (.push i value ty, reply) :: after →
      reply = if start + drawn before < Counter.last then
        .named (numbered (stems i) (start + drawn before)) else .exhausted
  below : ∀ push ∈ pushes t.log,
    NumberedBelow (stems push.1) t.state.counter.value push.2.name
  apart : (pushes t.log).Pairwise fun a b => stems a.1 = stems b.1 → a.2.name ≠ b.2.name

namespace Faithful

variable {stems : ι → String} {start : Nat} {t : Transcript (Request ι) Reply (QueuePool ι)}

theorem empty (stems : ι → String) (counter : Counter) :
    Faithful stems counter.value { state := ⟨fun i => { stem := stems i }, counter⟩ } where
  stem_eq _ := rfl
  counter := by
    show if counter.value ≤ Counter.last then counter.value = counter.value
      else Counter.last ≤ counter.value
    split <;> omega
  fields _ := rfl
  replies := by simp
  below := by simp [pushes]
  apart := List.Pairwise.nil

/-- A push further back is one of the log before; a push that comes last draws now. -/
theorem replies_ask (h : Faithful stems start t) (request : Request ι)
    {before after : List (Request ι × Reply)} {i : ι} {value : Value} {ty : Ty} {reply : Reply}
    (hlog : (t.ask answer request).log = before ++ (.push i value ty, reply) :: after) :
    reply = if start + drawn before < Counter.last then
      .named (numbered (stems i) (start + drawn before)) else .exhausted := by
  have hlog' : t.log ++ [(request, (t.state.answer request).1)] =
      before ++ (.push i value ty, reply) :: after := hlog
  rcases List.eq_nil_or_concat after with rfl | ⟨rest, last, rfl⟩
  · obtain ⟨rfl, hlast⟩ := List.append_inj' hlog' rfl
    cases hlast
    rw [t.state.reply_push, h.stem_eq i]
    have hcounter := h.counter
    by_cases hleft : start + drawn t.log < Counter.last
    · rw [if_pos (Nat.le_of_lt hleft)] at hcounter
      rw [hcounter]
    · have hend : ¬ t.state.counter.value < Counter.last := by
        split at hcounter <;> omega
      rw [if_neg hleft, if_neg hend]
  · rw [List.concat_eq_append, ← List.cons_append, ← List.append_assoc] at hlog'
    obtain ⟨hbefore, -⟩ := List.append_inj' hlog' rfl
    exact h.replies before i value ty reply rest hbefore

theorem ask (h : Faithful stems start t) (request : Request ι) :
    Faithful stems start (t.ask answer request) := by
  have hcounter := t.state.counter_answer request
  have hpushes := t.state.pushes_answer request
  constructor
  · intro i
    exact (t.state.stem_answer request i).trans (h.stem_eq i)
  · show if start + drawn (t.log ++ [_]) ≤ Counter.last then
      (t.state.answer request).2.counter.value = start + drawn (t.log ++ [_])
      else Counter.last ≤ (t.state.answer request).2.counter.value
    have hbefore := h.counter
    have hone : drawn [(request, (t.state.answer request).1)] ≤ 1 := List.countP_le_length
    rw [hcounter, drawn_append]
    split at hbefore <;> split <;> split <;> omega
  · intro i
    show takenFrom i (t.log ++ [_]) ++ ((t.state.answer request).2.queues i).toList =
      pushedOn i (t.log ++ [_])
    rw [takenFrom_append, pushedOn_append, List.append_assoc, t.state.fields_answer request i,
      ← List.append_assoc, h.fields i]
  · intro before i value ty reply after hlog
    exact h.replies_ask request hlog
  · intro push hpush
    show NumberedBelow (stems push.1) (t.state.answer request).2.counter.value push.2.name
    have hpush' : push ∈ pushes t.log ++ pushes [(request, (t.state.answer request).1)] := by
      rw [← pushes_append]
      exact hpush
    rcases List.mem_append.mp hpush' with hold | hnew
    · obtain ⟨n, hn, hname⟩ := h.below push hold
      refine ⟨n, ?_, hname⟩
      split at hcounter <;> omega
    · obtain ⟨hname, hnext⟩ := hpushes push hnew
      exact ⟨t.state.counter.value, hnext, by rw [hname, h.stem_eq]⟩
  · show (pushes (t.log ++ [_])).Pairwise _
    rw [pushes_append]
    refine List.pairwise_append.mpr ⟨h.apart, ?_, ?_⟩
    · rw [pushes_single]
      cases pushed? (request, (t.state.answer request).1) with
      | none => exact .nil
      | some push => exact List.pairwise_singleton ..
    · intro a ha b hb hstems
      obtain ⟨n, hn, hname⟩ := h.below a ha
      rw [hname, (hpushes b hb).1, h.stem_eq, hstems, ne_eq, numbered_inj]
      omega

end Faithful

/-- Queues on one counter lose, double and confuse nothing, whatever is asked of them and drawn
beside them. What was taken from a queue, and after it what the queue still holds, is what was
pushed on it. Each push names its field with the queue's stem and the count of numbers drawn before,
from where the counter started, until the counter has come to its end. So no two pushes under one
stem give one name. -/
theorem queues_lose_nothing (stems : ι → String) (counter : Counter)
    (requests : List (Request ι)) :
    let t := Transcript.of answer ⟨fun i => { stem := stems i }, counter⟩ requests
    t.log.map (·.1) = requests ∧
    (∀ i, takenFrom i t.log ++ (t.state.queues i).toList = pushedOn i t.log) ∧
    (∀ before i value ty reply after, t.log = before ++ (.push i value ty, reply) :: after →
      reply = if counter.value + drawn before < Counter.last then
        .named (numbered (stems i) (counter.value + drawn before)) else .exhausted) ∧
    (pushes t.log).Pairwise fun a b => stems a.1 = stems b.1 → a.2.name ≠ b.2.name := by
  intro t
  have h : Faithful stems counter.value t :=
    Transcript.of_keeps answer (fun _ request ht => ht.ask request) (.empty stems counter) requests
  exact ⟨Transcript.map_fst_log answer _ requests, h.fields, h.replies, h.apart⟩

/-- Two queues under one stem, with a number drawn between their pushes, a pop of an empty queue and
a drain that comes before the last push. -/
theorem queues_lose_nothing_twoQueues :
    let requests : List (Request Bool) := [.push true (.int 1) .int, .next,
      .push false (.int 2) .int, .pop true, .pop true, .push false (.bool true) .bool,
      .drain false, .push true .null .null]
    let t := Transcript.of answer ⟨fun _ => { stem := "F" }, ⟨5⟩⟩ requests
    (pushes t.log).map (fun push => (push.1, push.2.name)) =
      [(true, "F5"), (false, "F7"), (false, "F8"), (true, "F9")] ∧
    takenFrom true t.log = [⟨"F5", .int 1, .int⟩] ∧
    (t.state.queues true).toList = [⟨"F9", .null, .null⟩] ∧
    (∀ i, takenFrom i t.log ++ (t.state.queues i).toList = pushedOn i t.log) ∧
    (pushes t.log).Pairwise fun a b => a.2.name ≠ b.2.name := by
  intro requests t
  obtain ⟨-, hfields, -, hapart⟩ := queues_lose_nothing (fun _ : Bool => "F") ⟨5⟩ requests
  refine ⟨by decide +kernel, by decide +kernel, by decide +kernel, hfields, ?_⟩
  exact hapart.imp fun h => h rfl

end QueuePool
end FormulaCompiler
