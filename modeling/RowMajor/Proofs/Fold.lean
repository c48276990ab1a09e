import Mathlib

/-! Loops over the numbers below `n`, cut off after any number of steps. What a
step preserves holds after the loop. Loops over lists may stop before their end. -/
namespace RowMajor
variable {β : Type} {n : Nat}

/-- The value of a loop after its first `count` steps. -/
def loopTo (f : β → Fin n → β) (x : β) : Nat → β
  | 0 => x
  | count + 1 => if h : count < n then f (loopTo f x count) ⟨count, h⟩ else loopTo f x count

theorem loopTo_succ (f : β → Fin n → β) (x : β) (i : Fin n) :
    loopTo f x (i + 1) = f (loopTo f x i) i := by
  simp only [loopTo, i.isLt, dif_pos, Fin.eta]

theorem loopTo_castSucc (f : β → Fin (n + 1) → β) (x : β) {count : Nat} (h : count ≤ n) :
    loopTo (fun y i => f y (Fin.castSucc i)) x count = loopTo f x count := by
  induction count with
  | zero => rfl
  | succ count ih =>
      have small : count < n := h
      have larger : count < n + 1 := Nat.lt_succ_of_lt small
      simp only [loopTo, dif_pos small, dif_pos larger, ih (Nat.le_of_succ_le h)]
      rfl

theorem loopTo_all (f : β → Fin n → β) (x : β) : loopTo f x n = Fin.foldl n f x := by
  induction n with
  | zero => rfl
  | succ n ih =>
      rw [Fin.foldl_succ_last, ← ih, loopTo_castSucc f x (Nat.le_refl n)]
      exact loopTo_succ f x (Fin.last n)

/-- Loops of any two lengths that make the same first steps. -/
theorem loopTo_congr {m : Nat} {f : β → Fin n → β} {g : β → Fin m → β} {count : Nat}
    (fits : count ≤ n) (fits' : count ≤ m)
    (same : ∀ (i : Fin n) (p : Fin m) (y : β), (i : Nat) = p → (i : Nat) < count → f y i = g y p)
    (x : β) : loopTo f x count = loopTo g x count := by
  induction count with
  | zero => rfl
  | succ count ih =>
      have earlier := ih (Nat.le_of_succ_le fits) (Nat.le_of_succ_le fits')
        fun i p y equal before => same i p y equal (Nat.lt_succ_of_lt before)
      rw [loopTo_succ f x ⟨count, fits⟩, loopTo_succ g x ⟨count, fits'⟩, earlier]
      exact same ⟨count, fits⟩ ⟨count, fits'⟩ _ rfl (Nat.lt_succ_self count)

/-- A view of the loop is a loop of its own if every step can be followed in the view. -/
theorem loopTo_map {γ : Type} (view : β → γ) {f : β → Fin n → β} {g : γ → Fin n → γ}
    (same : ∀ y i, view (f y i) = g (view y) i) (x : β) (count : Nat) :
    view (loopTo f x count) = loopTo g (view x) count := by
  induction count with
  | zero => rfl
  | succ count ih =>
      by_cases h : count < n
      · simp only [loopTo, dif_pos h, same, ih]
      · simp only [loopTo, dif_neg h, ih]

/-- The motive also counts the steps made so far. -/
theorem loopTo_invariant {f : β → Fin n → β} {x : β} (motive : Nat → β → Prop)
    (start : motive 0 x) (step : ∀ (i : Fin n) (y : β), motive i y → motive (i + 1) (f y i))
    {count : Nat} (h : count ≤ n) : motive count (loopTo f x count) := by
  induction count with
  | zero => exact start
  | succ count ih =>
      have here := step ⟨count, h⟩ _ (ih (Nat.le_of_succ_le h))
      rwa [← loopTo_succ f x ⟨count, h⟩] at here

theorem foldl_invariant {f : β → Fin n → β} {x : β} (motive : Nat → β → Prop)
    (start : motive 0 x) (step : ∀ (i : Fin n) (y : β), motive i y → motive (i + 1) (f y i)) :
    motive n (Fin.foldl n f x) := by
  rw [← loopTo_all]
  exact loopTo_invariant motive start step (Nat.le_refl n)

/-- A loop that does nothing from `count` on has ended there. -/
theorem foldl_invariant_below {f : β → Fin n → β} {x : β} {count : Nat} (h : count ≤ n)
    (idle : ∀ (i : Fin n) (y : β), ¬ i < count → f y i = y) (motive : Nat → β → Prop)
    (start : motive 0 x)
    (step : ∀ (i : Fin n) (y : β), i < count → motive i y → motive (i + 1) (f y i)) :
    motive count (Fin.foldl n f x) := by
  have done : motive (min n count) (Fin.foldl n f x) := by
    apply foldl_invariant fun made y => motive (min made count) y
    · rwa [Nat.zero_min]
    · intro i y made
      by_cases before : i < count
      · rw [Nat.min_eq_left (Nat.le_of_lt before)] at made
        rw [Nat.min_eq_left before]
        exact step i y before made
      · have beyond : count ≤ i := Nat.le_of_not_lt before
        rw [Nat.min_eq_right beyond] at made
        rwa [Nat.min_eq_right (Nat.le_succ_of_le beyond), idle i y before]
  rwa [Nat.min_eq_right h] at done

theorem foldl_below (f : β → Fin n → β) (x : β) {count : Nat} (h : count ≤ n) :
    Fin.foldl n (fun y i => if i < count then f y i else y) x = loopTo f x count := by
  apply foldl_invariant_below h (fun i y beyond => if_neg beyond) fun made y => y = loopTo f x made
  · rfl
  · rintro i y before rfl
    rw [if_pos before]
    exact (loopTo_succ f x i).symm

/-- A loop from the last number down. The motive counts the steps still to come. -/
theorem foldr_invariant {f : Fin n → β → β} {x : β} (motive : Nat → β → Prop)
    (start : motive n x) (step : ∀ (i : Fin n) (y : β), motive (i + 1) y → motive i (f i y)) :
    motive 0 (Fin.foldr n f x) := by
  induction n generalizing motive with
  | zero => exact start
  | succ n ih =>
      rw [Fin.foldr_succ]
      apply step 0
      exact ih (fun count => motive (count + 1)) start fun i y h => step i.succ y h

/-! Passes over a list that may stop -/

variable {γ ε : Type} {f : β → Except ε γ} {xs : List β}

/-- A pass that reaches the end has stopped nowhere. -/
theorem mapM_eq_ok {ys : List γ} (h : xs.mapM f = .ok ys) :
    List.Forall₂ (fun x y => f x = .ok y) xs ys := by
  induction xs generalizing ys with
  | nil =>
      cases h
      exact .nil
  | cons x xs ih =>
      rw [List.mapM_cons] at h
      cases here : f x with
      | error stop =>
          rw [here] at h
          cases h
      | ok y =>
          cases rest : xs.mapM f with
          | error stop =>
              rw [here, rest] at h
              cases h
          | ok ys =>
              rw [here, rest] at h
              cases h
              exact .cons here (ih rest)

/-- A pass that stops does so at the first element that it cannot pass. -/
theorem mapM_eq_error {stop : ε} (h : xs.mapM f = .error stop) :
    ∃ before x after, xs = before ++ x :: after ∧ f x = .error stop ∧
      ∀ x' ∈ before, ∃ y, f x' = .ok y := by
  induction xs with
  | nil => cases h
  | cons x xs ih =>
      rw [List.mapM_cons] at h
      cases here : f x with
      | error other =>
          rw [here] at h
          cases h
          exact ⟨[], x, xs, rfl, here, fun _ mem => absurd mem List.not_mem_nil⟩
      | ok y =>
          cases rest : xs.mapM f with
          | ok ys =>
              rw [here, rest] at h
              cases h
          | error other =>
              rw [here, rest] at h
              cases h
              obtain ⟨before, d, after, rfl, fails, succeed⟩ := ih rest
              refine ⟨x :: before, d, after, rfl, fails, fun x' mem => ?_⟩
              rcases List.mem_cons.mp mem with rfl | later
              · exact ⟨y, here⟩
              · exact succeed x' later

end RowMajor
