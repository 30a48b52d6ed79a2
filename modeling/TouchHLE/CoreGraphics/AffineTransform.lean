/-
Affine transforms (`cg_affine_transform.rs`, `matrix.rs`), over the rational numbers in place of `f32`.

- `Mat3`: matrices of three columns. `CGAffineTransform`: the conversions between the two.
- `concat`, `invert`, `applyToPoint`: the functions.
- `concat_eq`: transforms are a monoid. `mul_invert`, `invert_mul`: those with a determinant have an inverse.
- `apply_mul`, `apply_invert`: what they do to points.
-/
import TouchHLE.Panic
import Mathlib.Algebra.BigOperators.Fin

namespace TouchHLE

/-- a number of the app; it is exact here -/
abbrev CGFloat := ℚ

@[ext]
structure CGPoint where
  x : CGFloat
  y : CGFloat
deriving DecidableEq

structure CGSize where
  width : CGFloat
  height : CGFloat
deriving DecidableEq

structure CGRect where
  origin : CGPoint
  size : CGSize
deriving DecidableEq

/-! ## Matrices -/

/-- a `Matrix<3>`: the entry of a column and a row -/
abbrev Mat3 := Fin 3 → Fin 3 → CGFloat

namespace Mat3

def multiply (a b : Mat3) : Mat3 := fun i j => ∑ k, a i k * b k j

def transform (m : Mat3) (v : Fin 3 → CGFloat) : Fin 3 → CGFloat := fun j => ∑ i, m i j * v i

def determinant (m : Mat3) : CGFloat :=
  let (a, d, g) := (m 0 0, m 0 1, m 0 2)
  let (b, e, h) := (m 1 0, m 1 1, m 1 2)
  let (c, f, i) := (m 2 0, m 2 1, m 2 2)
  a * e * i + b * f * g + c * d * h - c * e * g - b * d * i - a * f * h

/-- `inverse`: only a matrix whose determinant is not zero has one -/
def inverse (m : Mat3) : Option Mat3 :=
  let det := determinant m
  if det = 0 then none
  else
    let (a, d, g) := (m 0 0, m 0 1, m 0 2)
    let (b, e, h) := (m 1 0, m 1 1, m 1 2)
    let (c, f, i) := (m 2 0, m 2 1, m 2 2)
    some ![![1 / det * (e * i - f * h), 1 / det * -(d * i - f * g), 1 / det * (d * h - e * g)],
      ![1 / det * -(b * i - c * h), 1 / det * (a * i - c * g), 1 / det * -(a * h - b * g)],
      ![1 / det * (b * f - c * e), 1 / det * -(a * f - c * d), 1 / det * (a * e - b * d)]]

def translate2d (x y : CGFloat) : Mat3 := ![![1, 0, 0], ![0, 1, 0], ![x, y, 1]]

end Mat3

/-! ## Transforms -/

@[ext]
structure CGAffineTransform where
  a : CGFloat
  b : CGFloat
  c : CGFloat
  d : CGFloat
  tx : CGFloat
  ty : CGFloat
deriving DecidableEq

namespace CGAffineTransform

def identity : CGAffineTransform := ⟨1, 0, 0, 1, 0, 0⟩

def toMatrix (t : CGAffineTransform) : Mat3 := ![![t.a, t.b, 0], ![t.c, t.d, 0], ![t.tx, t.ty, 1]]

/-- `affine_transform_from_matrix_unchecked` -/
def ofMatrixUnchecked (m : Mat3) : CGAffineTransform := ⟨m 0 0, m 0 1, m 1 0, m 1 1, m 2 0, m 2 1⟩

/-- `try_from(..).unwrap()` -/
def ofMatrix (m : Mat3) : Except Panic CGAffineTransform := do
  assert (m 0 2 == 0 && m 1 2 == 0 && m 2 2 == 1) .conversion
  pure (ofMatrixUnchecked m)

def makeTranslation (x y : CGFloat) : Except Panic CGAffineTransform := ofMatrix (Mat3.translate2d x y)

def concat (t u : CGAffineTransform) : Except Panic CGAffineTransform := ofMatrix (Mat3.multiply t.toMatrix u.toMatrix)

/-- a transform that has no inverse stays as it is -/
def invert (t : CGAffineTransform) : CGAffineTransform :=
  match Mat3.inverse t.toMatrix with
  | some inverse => ofMatrixUnchecked inverse
  | none => t

def applyToPoint (t : CGAffineTransform) (point : CGPoint) : CGPoint :=
  let v := Mat3.transform t.toMatrix ![point.x, point.y, 1]
  ⟨v 0, v 1⟩

/-! ## The monoid of transforms -/

instance : One CGAffineTransform := ⟨identity⟩

/-- one transform after the other -/
instance : Mul CGAffineTransform where
  mul t u := ⟨t.a * u.a + t.b * u.c, t.a * u.b + t.b * u.d, t.c * u.a + t.d * u.c, t.c * u.b + t.d * u.d,
    t.tx * u.a + t.ty * u.c + u.tx, t.tx * u.b + t.ty * u.d + u.ty⟩

/-- `translate_2d` as a transform -/
def translation (x y : CGFloat) : CGAffineTransform := ⟨1, 0, 0, 1, x, y⟩

/-- the determinant, which that of the matrix is -/
def det (t : CGAffineTransform) : CGFloat := t.a * t.d - t.b * t.c

variable {t u v : CGAffineTransform} {p q : CGPoint}

theorem one_eq : (1 : CGAffineTransform) = identity := rfl

theorem mul_eq (t u : CGAffineTransform) : t * u = ⟨t.a * u.a + t.b * u.c, t.a * u.b + t.b * u.d,
    t.c * u.a + t.d * u.c, t.c * u.b + t.d * u.d, t.tx * u.a + t.ty * u.c + u.tx,
    t.tx * u.b + t.ty * u.d + u.ty⟩ := rfl

instance : Monoid CGAffineTransform where
  mul_assoc t u v := by
    ext <;> simp [mul_eq] <;> ring
  one_mul t := by
    ext <;> simp [mul_eq, one_eq, identity]
  mul_one t := by
    ext <;> simp [mul_eq, one_eq, identity]

theorem concat_eq (t u : CGAffineTransform) : concat t u = .ok (t * u) := by
  have hcolumn : ∀ i, Mat3.multiply t.toMatrix u.toMatrix i 2 = t.toMatrix i 2 := by
    intro i
    fin_cases i <;> simp [Mat3.multiply, toMatrix, Fin.sum_univ_three]
  rw [concat, ofMatrix, hcolumn, hcolumn, hcolumn, assert_ok (by simp [toMatrix])]
  apply congrArg Except.ok
  ext <;> simp [mul_eq, ofMatrixUnchecked, Mat3.multiply, toMatrix, Fin.sum_univ_three]

theorem makeTranslation_eq (x y : CGFloat) : makeTranslation x y = .ok (translation x y) := by
  rw [makeTranslation, ofMatrix, assert_ok (by simp [Mat3.translate2d])]
  rfl

theorem det_toMatrix (t : CGAffineTransform) : Mat3.determinant t.toMatrix = t.det := by
  simp [Mat3.determinant, toMatrix, det]
  ring

theorem det_mul (t u : CGAffineTransform) : (t * u).det = t.det * u.det := by
  simp [det, mul_eq]
  ring

@[simp] theorem det_one : (1 : CGAffineTransform).det = 1 := by
  simp [det, one_eq, identity]

@[simp] theorem det_translation (x y : CGFloat) : (translation x y).det = 1 := by
  simp [det, translation]

/-- the inverse of a transform that has one -/
theorem invert_eq (h : t.det ≠ 0) : t.invert = ⟨t.d / t.det, -t.b / t.det, -t.c / t.det, t.a / t.det,
    (t.c * t.ty - t.d * t.tx) / t.det, (t.b * t.tx - t.a * t.ty) / t.det⟩ := by
  have hinverse : Mat3.inverse t.toMatrix = some _ := if_neg (by rwa [det_toMatrix])
  rw [invert, hinverse]
  simp only [det_toMatrix]
  ext <;> simp [ofMatrixUnchecked, toMatrix] <;> field_simp

theorem mul_invert (h : t.det ≠ 0) : t * t.invert = 1 := by
  rw [invert_eq h]
  have hdet : t.a * t.d - t.b * t.c = t.det := rfl
  ext <;> simp [mul_eq, one_eq, identity] <;> field_simp <;> linarith

theorem invert_mul (h : t.det ≠ 0) : t.invert * t = 1 := by
  rw [invert_eq h]
  have hdet : t.a * t.d - t.b * t.c = t.det := rfl
  ext <;> simp [mul_eq, one_eq, identity] <;> field_simp
  · linarith
  · ring
  · ring
  · linarith
  · linear_combination -t.tx * hdet
  · linear_combination -t.ty * hdet

theorem isUnit (h : t.det ≠ 0) : IsUnit t := ⟨⟨t, t.invert, mul_invert h, invert_mul h⟩, rfl⟩

/-! ## Points -/

theorem applyToPoint_eq (t : CGAffineTransform) (p : CGPoint) :
    t.applyToPoint p = ⟨t.a * p.x + t.c * p.y + t.tx, t.b * p.x + t.d * p.y + t.ty⟩ := by
  ext <;> simp [applyToPoint, Mat3.transform, toMatrix, Fin.sum_univ_three]

/-- **A product** is applied from the left to the right. -/
theorem apply_mul (t u : CGAffineTransform) (p : CGPoint) : (t * u).applyToPoint p = u.applyToPoint (t.applyToPoint p) := by
  simp only [applyToPoint_eq, mul_eq]
  ext <;> ring

@[simp] theorem apply_one (p : CGPoint) : (1 : CGAffineTransform).applyToPoint p = p := by
  simp [applyToPoint_eq, one_eq, identity]

theorem apply_invert (h : t.det ≠ 0) (p : CGPoint) : t.invert.applyToPoint (t.applyToPoint p) = p := by
  rw [← apply_mul, mul_invert h, apply_one]

end CGAffineTransform

end TouchHLE
