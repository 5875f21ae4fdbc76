import Mathlib

/-!
# Computations that keep their state when they fail

`EStateM` threads a state through a computation and still returns it when the computation
throws, which is how a mutable value looks after an early return.  There is one inversion lemma
for each primitive, and composition rules for invariants and relations that hold on both exits.
Checks that touch no state are `Except` computations with inversion lemmas of the same shape.
-/

/-- Leave the computation with `error` when the condition holds. -/
def rejectIf {m : Type → Type} {ε : Type} [Monad m] [MonadExceptOf ε m]
    (condition : Bool) (error : ε) : m Unit :=
  if condition then throw error else pure ()

def required {ε α : Type} (error : ε) : Option α → Except ε α
  | some value => .ok value
  | none => .error error

namespace Checked

variable {ε α β : Type}

@[simp]
theorem ok_bind {value : α} {rest : α → Except ε β} :
    ((.ok value : Except ε α) >>= rest) = rest value := rfl

@[simp]
theorem error_bind {error : ε} {rest : α → Except ε β} :
    ((.error error : Except ε α) >>= rest) = .error error := rfl

@[simp]
theorem bind_eq_ok {first : Except ε α} {rest : α → Except ε β} {result : β} :
    (first >>= rest) = .ok result ↔
      ∃ value, first = .ok value ∧ rest value = .ok result := by
  cases first with
  | error error =>
      change Except.error error = .ok result ↔ _
      simp
  | ok value =>
      change rest value = .ok result ↔ _
      simp

@[simp]
theorem pure_eq_ok {value result : α} :
    (pure value : Except ε α) = .ok result ↔ value = result := by
  change Except.ok value = .ok result ↔ _
  simp

@[simp]
theorem throw_eq_ok {error : ε} {result : α} :
    (throw error : Except ε α) = .ok result ↔ False := by
  change Except.error error = .ok result ↔ _
  simp

@[simp]
theorem rejectIf_eq_ok {condition : Bool} {error : ε} {result : Unit} :
    (rejectIf condition error : Except ε Unit) = .ok result ↔ condition = false := by
  cases condition <;> simp [rejectIf]

@[simp]
theorem mapError_eq_ok {ε' : Type} {attempt : Except ε α} {convert : ε → ε'}
    {result : α} :
    attempt.mapError convert = .ok result ↔ attempt = .ok result := by
  cases attempt <;> simp [Except.mapError]

@[simp]
theorem required_eq_ok {error : ε} {value : Option α} {result : α} :
    required error value = .ok result ↔ value = some result := by
  cases value <;> simp [required]

theorem mapM_eq_ok {check : α → Except ε β} {inputs : List α} {outputs : List β} :
    inputs.mapM check = .ok outputs ↔
      List.Forall₂ (fun input output => check input = .ok output) inputs outputs := by
  induction inputs generalizing outputs with
  | nil =>
      simp only [List.mapM_nil, pure_eq_ok, List.forall₂_nil_left_iff]
      exact eq_comm
  | cons input inputs ih =>
      simp only [List.mapM_cons, bind_eq_ok, pure_eq_ok, ih, List.forall₂_cons_left_iff]
      constructor
      · rintro ⟨first, here, rest, there, rfl⟩
        exact ⟨first, rest, here, there, rfl⟩
      · rintro ⟨first, rest, here, there, rfl⟩
        exact ⟨first, here, rest, there, rfl⟩

theorem exists_of_forall₂ {related : α → β → Prop} {inputs : List α} {outputs : List β}
    {output : β} (all : List.Forall₂ related inputs outputs) (member : output ∈ outputs) :
    ∃ input ∈ inputs, related input output := by
  induction all with
  | nil => cases member
  | @cons input first inputs outputs here there ih =>
      rcases List.mem_cons.mp member with rfl | later
      · exact ⟨input, by simp, here⟩
      · obtain ⟨found, listed, related⟩ := ih later
        exact ⟨found, by simp [listed], related⟩

theorem forM_eq_ok {check : α → Except ε Unit} {inputs : List α} :
    inputs.forM check = .ok () ↔ ∀ input ∈ inputs, check input = .ok () := by
  induction inputs with
  | nil =>
      change (pure () : Except ε Unit) = .ok () ↔ _
      simp
  | cons input inputs ih =>
      change (check input >>= fun _ => inputs.forM check) = .ok () ↔ _
      rw [bind_eq_ok, List.forall_mem_cons, ih]
      constructor
      · rintro ⟨⟨⟩, here, there⟩
        exact ⟨here, there⟩
      · rintro ⟨here, there⟩
        exact ⟨(), here, there⟩

end Checked

namespace Retained

variable {ε σ α β : Type}

/-- Run a pure fallible computation without touching the state. -/
def ofExcept : Except ε α → EStateM ε σ α
  | .ok value => pure value
  | .error error => throw error

def relabel (convert : ε → ε) (computation : EStateM ε σ α) : EStateM ε σ α := fun start =>
  match computation start with
  | .ok value state => .ok value state
  | .error error state => .error (convert error) state

/-- The state a computation leaves behind, whichever way it ends. -/
def final (computation : EStateM ε σ α) (start : σ) : σ :=
  match computation start with
  | .ok _ state => state
  | .error _ state => state

theorem final_of_ok {computation : EStateM ε σ α} {start state : σ} {value : α}
    (ran : computation start = .ok value state) :
    final computation start = state := by
  simp [final, ran]

theorem final_of_error {computation : EStateM ε σ α} {start state : σ} {error : ε}
    (ran : computation start = .error error state) :
    final computation start = state := by
  simp [final, ran]

@[simp]
theorem pure_eq_ok {value result : α} {start state : σ} :
    (pure value : EStateM ε σ α) start = .ok result state ↔
      value = result ∧ start = state := by
  change EStateM.Result.ok value start = .ok result state ↔ _
  simp

@[simp]
theorem throw_eq_ok {error : ε} {result : α} {start state : σ} :
    (throw error : EStateM ε σ α) start = .ok result state ↔ False := by
  change EStateM.Result.error error start = .ok result state ↔ _
  simp

@[simp]
theorem get_eq_ok {result start state : σ} :
    (get : EStateM ε σ σ) start = .ok result state ↔
      start = result ∧ start = state := by
  change EStateM.Result.ok start start = .ok result state ↔ _
  simp

@[simp]
theorem modify_eq_ok {update : σ → σ} {result : PUnit} {start state : σ} :
    (modify update : EStateM ε σ PUnit) start = .ok result state ↔
      update start = state := by
  change EStateM.Result.ok PUnit.unit (update start) = .ok result state ↔ _
  simp

@[simp]
theorem ofExcept_eq_ok {attempt : Except ε α} {result : α} {start state : σ} :
    (ofExcept attempt : EStateM ε σ α) start = .ok result state ↔
      attempt = .ok result ∧ start = state := by
  cases attempt with
  | error error => simp [ofExcept]
  | ok value => simp [ofExcept]

@[simp]
theorem rejectIf_eq_ok {condition : Bool} {error : ε} {result : Unit}
    {start state : σ} :
    (rejectIf condition error : EStateM ε σ Unit) start = .ok result state ↔
      condition = false ∧ start = state := by
  cases condition <;> simp [rejectIf]

@[simp]
theorem bind_eq_ok {first : EStateM ε σ α} {rest : α → EStateM ε σ β}
    {result : β} {start state : σ} :
    (first >>= rest) start = .ok result state ↔
      ∃ value middle, first start = .ok value middle ∧
        rest value middle = .ok result state := by
  change EStateM.bind first rest start = .ok result state ↔ _
  unfold EStateM.bind
  cases first start <;> simp

@[simp]
theorem throw_eq_error {error reason : ε} {start state : σ} :
    (throw error : EStateM ε σ α) start = .error reason state ↔
      error = reason ∧ start = state := by
  change EStateM.Result.error error start = .error reason state ↔ _
  simp

@[simp]
theorem ofExcept_eq_error {attempt : Except ε α} {error : ε} {start state : σ} :
    (ofExcept attempt : EStateM ε σ α) start = .error error state ↔
      attempt = .error error ∧ start = state := by
  cases attempt with
  | error reason => simp [ofExcept]
  | ok value =>
      change EStateM.Result.ok value start = .error error state ↔ _
      simp

@[simp]
theorem bind_eq_error {first : EStateM ε σ α} {rest : α → EStateM ε σ β}
    {error : ε} {start state : σ} :
    (first >>= rest) start = .error error state ↔
      first start = .error error state ∨
        ∃ value middle, first start = .ok value middle ∧
          rest value middle = .error error state := by
  change EStateM.bind first rest start = .error error state ↔ _
  unfold EStateM.bind
  cases first start <;> simp

@[simp]
theorem final_pure (value : α) (start : σ) :
    final (pure value : EStateM ε σ α) start = start :=
  rfl

@[simp]
theorem final_throw (error : ε) (start : σ) :
    final (throw error : EStateM ε σ α) start = start :=
  rfl

@[simp]
theorem final_get (start : σ) :
    final (get : EStateM ε σ σ) start = start :=
  rfl

@[simp]
theorem final_modify (update : σ → σ) (start : σ) :
    final (modify update : EStateM ε σ PUnit) start = update start :=
  rfl

@[simp]
theorem final_ofExcept (attempt : Except ε α) (start : σ) :
    final (ofExcept attempt : EStateM ε σ α) start = start := by
  cases attempt <;> rfl

@[simp]
theorem final_rejectIf (condition : Bool) (error : ε) (start : σ) :
    final (rejectIf condition error : EStateM ε σ Unit) start = start := by
  cases condition <;> rfl

theorem run_get_bind (rest : σ → EStateM ε σ β) (start : σ) :
    ((get : EStateM ε σ σ) >>= rest) start = rest start start :=
  rfl

theorem run_ofExcept_bind (attempt : Except ε α) (rest : α → EStateM ε σ β) (start : σ) :
    (ofExcept attempt >>= rest) start =
      match attempt with
      | .ok value => rest value start
      | .error error => .error error start := by
  cases attempt <;> rfl

theorem run_bind (first : EStateM ε σ α) (rest : α → EStateM ε σ β) (start : σ) :
    (first >>= rest) start =
      match first start with
      | .ok value middle => rest value middle
      | .error error middle => .error error middle := by
  change EStateM.bind first rest start = _
  unfold EStateM.bind
  cases first start <;> rfl

theorem final_bind (first : EStateM ε σ α) (rest : α → EStateM ε σ β) (start : σ) :
    final (first >>= rest) start =
      match first start with
      | .ok value middle => final (rest value) middle
      | .error _ middle => middle := by
  unfold final
  rw [run_bind]
  cases first start <;> rfl

theorem final_ofExcept_bind (attempt : Except ε α) (rest : α → EStateM ε σ β) (start : σ) :
    final (ofExcept attempt >>= rest) start =
      match attempt with
      | .ok value => final (rest value) start
      | .error _ => start := by
  cases attempt <;> rfl

theorem final_bind_pure (first : EStateM ε σ α) (result : β) (start : σ) :
    final (first >>= fun _ => pure result) start = final first start := by
  rw [final_bind]
  unfold final
  cases first start <;> rfl

/-- What holds after the first part, and is kept by the second part when the
first succeeds, holds after a sequence, whichever way it ends. -/
theorem bind_invariant {holds : σ → Prop}
    {first : EStateM ε σ α} {rest : α → EStateM ε σ β} {start : σ}
    (firstHolds : holds (final first start))
    (restHolds : ∀ value middle, first start = .ok value middle →
      holds middle → holds (final (rest value) middle)) :
    holds (final (first >>= rest) start) := by
  cases ran : first start with
  | ok value middle =>
      have whole : final (first >>= rest) start = final (rest value) middle := by
        change (match EStateM.bind first rest start with
          | .ok _ state => state
          | .error _ state => state) = _
        simp [EStateM.bind, ran, final]
      rw [whole]
      rw [final_of_ok ran] at firstHolds
      exact restHolds value middle ran firstHolds
  | error error middle =>
      have whole : final (first >>= rest) start = middle := by
        change (match EStateM.bind first rest start with
          | .ok _ state => state
          | .error _ state => state) = _
        simp [EStateM.bind, ran]
      rw [whole]
      rwa [final_of_error ran] at firstHolds

/-- Relations between the initial and the final state compose along a
sequence, on the successful exit and on both failing ones. -/
theorem bind_related {related : σ → σ → Prop}
    (transitive : ∀ {a b c}, related a b → related b c → related a c)
    {first : EStateM ε σ α} {rest : α → EStateM ε σ β} {start : σ}
    (firstRelated : related start (final first start))
    (restRelated : ∀ value middle, first start = .ok value middle →
      related middle (final (rest value) middle)) :
    related start (final (first >>= rest) start) :=
  bind_invariant firstRelated fun value middle ran before =>
    transitive before (restRelated value middle ran)

end Retained
