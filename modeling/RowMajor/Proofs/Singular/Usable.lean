import Mathlib
import RowMajor.Matrix.SingularValues
import RowMajor.Proofs.Scalar.Zero

/-! Vectors whose computed length can be divided by, and the components that come of
them. A vector without a usable length ends in a component that is zero throughout. -/
namespace RowMajor
variable {α : Type} [Scalar α] {n m : Nat}

/-- The computed length is positive and finite. -/
def Usable (x : Vector α n) : Prop :=
  (Scalar.less 0 (Scalar.norm x.toList) && Scalar.isFinite (Scalar.norm x.toList)) = true

theorem normalize_usable {x : Vector α n} (usable : Usable x) :
    normalize x = (Scalar.norm x.toList, x.map (· / Scalar.norm x.toList)) :=
  if_pos usable

theorem normalize_unusable {x : Vector α n} (unusable : ¬ Usable x) : normalize x = (0, x) :=
  if_neg unusable

/-- The component without weight and directions. -/
def Triplet.blank : Triplet α n m :=
  ⟨0, Vector.replicate n 0, Vector.replicate m 0⟩

variable [LawfulZero α]

theorem Usable.not_isZero {x : Vector α n} (usable : Usable x) :
    ¬ Scalar.isZero (Scalar.norm x.toList) = true := by
  have positive := (Bool.and_eq_true_iff.mp usable).1
  rw [LawfulZero.not_isZero positive]
  exact Bool.false_ne_true

namespace Mat
variable {a : Mat α n m}

theorem tripletOfLeft_usable {x : Vector α n} (usable : Usable (a.applyTransposed x)) :
    a.tripletOfLeft x = ⟨Scalar.norm (a.applyTransposed x).toList, x,
      (a.applyTransposed x).map (· / Scalar.norm (a.applyTransposed x).toList)⟩ := by
  rw [tripletOfLeft, normalize_usable usable]
  exact if_neg usable.not_isZero

theorem tripletOfLeft_unusable {x : Vector α n} (unusable : ¬ Usable (a.applyTransposed x)) :
    a.tripletOfLeft x = .blank := by
  rw [tripletOfLeft, normalize_unusable unusable]
  exact if_pos LawfulZero.isZero_zero

theorem tripletOfRight_usable {x : Vector α m} (usable : Usable (a.image x)) :
    a.tripletOfRight x = ⟨Scalar.norm (a.image x).toList,
      (a.image x).map (· / Scalar.norm (a.image x).toList), x⟩ := by
  rw [tripletOfRight, normalize_usable usable]
  exact if_neg usable.not_isZero

theorem tripletOfRight_unusable {x : Vector α m} (unusable : ¬ Usable (a.image x)) :
    a.tripletOfRight x = .blank := by
  rw [tripletOfRight, normalize_unusable unusable]
  exact if_pos LawfulZero.isZero_zero

theorem deflate_blank (a : Mat α n m) : a.deflate .blank = a := by
  apply ext_entry
  intro i j
  have zero (l : Nat) (p : Fin l) : (Vector.replicate l (0 : α)).get p = 0 := by
    simp only [get_eq, Fin.getElem_fin, Vector.getElem_replicate]
  simp only [deflate, entry_ofFn, Triplet.blank, zero, LawfulZero.sub_zero_product]

end Mat
end RowMajor
