/-
Points in the co-ordinate spaces of layers (`ca_layer.rs`): `convertPoint:fromLayer:` and `convertPoint:toLayer:`.

- `CALayerHostObject`, `superlayerToLayerTransform`: a layer, and its step to the space of its superlayer.
- `Side`, `halfStep`, `walk`, `transformForConversion`: the alternating walk up the two chains of superlayers.
- `Forest`: layers whose chains end and whose transforms have inverses.
- `Side.Inv`: what a side of the walk has seen so far.
- `convert_point`: which point it is, and when there is one.
-/
import TouchHLE.CoreGraphics.AffineTransform
import TouchHLE.Lib.Assoc
import TouchHLE.Lib.Chains
import TouchHLE.Lib.Machine

namespace TouchHLE

open Machine

/-- a `CALayer` -/
abbrev Layer := ℕ

structure CALayerHostObject where
  superlayer : Option Layer
  bounds : CGRect
  position : CGPoint
  anchorPoint : CGPoint
  affineTransform : CGAffineTransform

namespace CALayer

open CGAffineTransform

def superlayerToLayerTransform (l : CALayerHostObject) : Except Panic CGAffineTransform := do
  let origin ← makeTranslation (-l.bounds.origin.x) (-l.bounds.origin.y)
  let anchor ← makeTranslation (-l.bounds.size.width * l.anchorPoint.x) (-l.bounds.size.height * l.anchorPoint.y)
  let position ← makeTranslation l.position.x l.position.y
  concat (← concat (← concat origin anchor) l.affineTransform) position

/-- one side of the walk -/
structure Side where
  /-- the layers so far, with the transforms from their spaces -/
  map : List (Option Layer × CGAffineTransform)
  superlayer : Option Layer
  transform : CGAffineTransform

def Side.start (l : Option Layer) : Side := ⟨[(l, identity)], l, identity⟩

/-- what a step of a side comes to: a layer that the other side has, or a layer further -/
inductive Step where
  | found (ancestor : Layer) (mine theirs : CGAffineTransform)
  | moved (s : Side)

section

variable (layers : Layer → CALayerHostObject) (needCommonAncestor : Bool)

/-- a half of the loop -/
def halfStep (mine theirs : Side) : Except Panic Step :=
  match mine.superlayer with
  | none => pure (.moved mine)
  | some l => do
    let next := (layers l).superlayer
    let nextTransform ← concat mine.transform (← superlayerToLayerTransform (layers l))
    match needCommonAncestor, next with
    | true, some ancestor =>
      match theirs.map.lookup (some ancestor) with
      | some theirTransform => pure (.found ancestor nextTransform theirTransform)
      | none => pure (.moved ⟨Assoc.insert (some ancestor) nextTransform mine.map, next, nextTransform⟩)
    | _, _ => pure (.moved ⟨mine.map, next, nextTransform⟩)

/-- the loop, with the transforms of this layer and the other one when it ends; it goes round at most as often as the number says -/
def walk : ℕ → Side → Side → Except Panic (CGAffineTransform × CGAffineTransform)
  | 0, _, _ => throw .tooDeep
  | rounds + 1, this, other => do
    match ← halfStep layers needCommonAncestor this other with
    | .found _ thisTransform otherTransform => pure (thisTransform, otherTransform)
    | .moved this =>
      match ← halfStep layers needCommonAncestor other this with
      | .found _ otherTransform thisTransform => pure (thisTransform, otherTransform)
      | .moved other =>
        if this.superlayer = none ∧ other.superlayer = none then
          if needCommonAncestor then throw .commonAncestor else pure (this.transform, other.transform)
        else walk rounds this other

end

variable (layers : Layer → CALayerHostObject) (rounds : ℕ)

def transformForConversion (this other : Option Layer) : Except Panic CGAffineTransform := do
  assert (this.isSome || other.isSome) .commonAncestor
  let needCommonAncestor := this.isSome && other.isSome
  let (thisTransform, otherTransform) ← walk layers needCommonAncestor rounds (.start this) (.start other)
  concat otherTransform thisTransform.invert

/-- `convertPoint:fromLayer:` -/
def convertPointFromLayer (this : Layer) (point : CGPoint) (other : Option Layer) : Except Panic CGPoint :=
  if some this = other then pure point
  else do pure ((← transformForConversion layers rounds (some this) other).applyToPoint point)

/-- `convertPoint:toLayer:` -/
def convertPointToLayer (this : Layer) (point : CGPoint) (other : Option Layer) : Except Panic CGPoint :=
  if some this = other then pure point
  else do pure ((← transformForConversion layers rounds other (some this)).applyToPoint point)

variable {layers rounds}

/-! ## Forests -/

/-- the step from the space of a layer to the one that it is placed in -/
def stepOf (l : CALayerHostObject) : CGAffineTransform :=
  translation (-l.bounds.origin.x) (-l.bounds.origin.y) *
    translation (-l.bounds.size.width * l.anchorPoint.x) (-l.bounds.size.height * l.anchorPoint.y) *
    l.affineTransform * translation l.position.x l.position.y

theorem superlayerToLayerTransform_eq (l : CALayerHostObject) : superlayerToLayerTransform l = .ok (stepOf l) := by
  simp only [superlayerToLayerTransform, makeTranslation_eq, concat_eq, ok_bind]
  rfl

theorem det_stepOf (l : CALayerHostObject) : (stepOf l).det = l.affineTransform.det := by
  simp only [stepOf, det_mul, det_translation, one_mul, mul_one]

/-- layers whose chains of superlayers end, with transforms that have inverses -/
structure Forest where
  layers : Layer → CALayerHostObject
  grounded : ∀ l, ∃ chain, Climb (fun l => (layers l).superlayer) (some l) chain none
  invertible : ∀ l, (layers l).affineTransform.det ≠ 0

namespace Forest

variable (f : Forest)

def up (l : Layer) : Option Layer := (f.layers l).superlayer

def step (l : Layer) : CGAffineTransform := stepOf (f.layers l)

/-- a point is carried up a chain of layers -/
def carryUp (chain : List Layer) (p : CGPoint) : CGPoint := chain.foldl (fun p l => (f.step l).applyToPoint p) p

/-- a point is carried down a chain of layers, by the inverses -/
def carryDown (chain : List Layer) (p : CGPoint) : CGPoint := chain.foldr (fun l p => (f.step l).invert.applyToPoint p) p

variable {f} {chain : List Layer} {p q : CGPoint} {x y : Layer}

theorem carryUp_cons (l : Layer) (chain : List Layer) (p : CGPoint) :
    f.carryUp (l :: chain) p = f.carryUp chain ((f.step l).applyToPoint p) := (rfl)

theorem carryDown_cons (l : Layer) (chain : List Layer) (p : CGPoint) :
    f.carryDown (l :: chain) p = (f.step l).invert.applyToPoint (f.carryDown chain p) := (rfl)

theorem det_step (l : Layer) : (f.step l).det ≠ 0 := by
  rw [step, det_stepOf]
  exact f.invertible l

theorem step_isUnit (l : Layer) : IsUnit (f.step l) := CGAffineTransform.isUnit (det_step l)

theorem along_det (chain : List Layer) : (along f.step chain).det ≠ 0 := by
  induction chain with
  | nil => simp
  | cons l chain ih =>
    rw [along, List.map_cons, List.prod_cons, det_mul]
    exact mul_ne_zero (det_step l) ih

theorem apply_along (chain : List Layer) (p : CGPoint) : (along f.step chain).applyToPoint p = f.carryUp chain p := by
  induction chain generalizing p with
  | nil => exact apply_one p
  | cons l chain ih =>
    rw [along, List.map_cons, List.prod_cons, apply_mul, carryUp_cons]
    exact ih _

/-- going down undoes going up -/
@[simp] theorem carryDown_carryUp (chain : List Layer) (p : CGPoint) : f.carryDown chain (f.carryUp chain p) = p := by
  induction chain generalizing p with
  | nil => rfl
  | cons l chain ih =>
    rw [carryUp_cons, carryDown_cons, ih, apply_invert (det_step l)]

@[simp] theorem carryUp_carryDown (chain : List Layer) (p : CGPoint) : f.carryUp chain (f.carryDown chain p) = p := by
  induction chain generalizing p with
  | nil => rfl
  | cons l chain ih =>
    rw [carryDown_cons, carryUp_cons, ← apply_mul, invert_mul (det_step l), apply_one, ih]

/-- a place above both: a layer, or what is above all of them if one of the two is nil -/
structure Meets (f : Forest) (x y place : Option Layer) : Prop where
  left : ∃ l, Climb f.up x l place
  right : ∃ l, Climb f.up y l place
  layer : x ≠ none → y ≠ none → place ≠ none

end Forest

/-! ## The walk -/

variable {f : Forest} {need : Bool} {mine theirs s s' : Side} {x y : Option Layer} {t u : CGAffineTransform} {n : ℕ}
  {rest rest' : List Layer} {k : Layer}

/-- **A side of the walk**: the way up so far, and the layers on it, which are written down if a common ancestor is needed. -/
structure Side.Inv (f : Forest) (need : Bool) (x : Option Layer) (s : Side) : Prop where
  way : ∃ l, Climb f.up x l s.superlayer ∧ s.transform = along f.step l
  sound : ∀ k t, s.map.lookup (some k) = some t → ∃ l, Climb f.up x l (some k) ∧ t = along f.step l
  complete : need = true → ∀ l k, Climb f.up x l (some k) → (s.map.lookup (some k)).isSome ∨
    ∃ rest, rest ≠ [] ∧ Climb f.up s.superlayer rest (some k)

/-- no layer is on both sides -/
def Apart (s s' : Side) : Prop := ∀ k, (s.map.lookup (some k)).isSome → ¬(s'.map.lookup (some k)).isSome

theorem Apart.symm (h : Apart s s') : Apart s' s := fun k hk hk' => h k hk' hk

theorem start_lookup : (Side.start x).map.lookup (some k) = some t ↔ x = some k ∧ t = identity := by
  by_cases hx : x = some k
  · subst hx
    simp [Side.start, eq_comm]
  · have hne : (some k == x) = false := beq_eq_false_iff_ne.2 (Ne.symm hx)
    simp [Side.start, List.lookup_cons, hne, hx]

theorem start_isSome (h : ((Side.start x).map.lookup (some k)).isSome) : x = some k := by
  obtain ⟨t, ht⟩ := Option.isSome_iff_exists.1 h
  exact (start_lookup.1 ht).1

theorem start_inv (f : Forest) (need : Bool) (x : Option Layer) : (Side.start x).Inv f need x := by
  refine ⟨⟨[], .here x, rfl⟩, fun k t h => ?_, fun _ l k h => ?_⟩
  · obtain ⟨rfl, rfl⟩ := start_lookup.1 h
    exact ⟨[], .here _, rfl⟩
  · cases l with
    | nil =>
      cases h
      rw [start_lookup.2 ⟨rfl, rfl⟩]
      exact Or.inl rfl
    | cons v l => exact Or.inr ⟨v :: l, List.cons_ne_nil _ _, h⟩

theorem start_apart (hne : x ≠ y) : Apart (.start x) (.start y) := by
  intro k hk hk'
  exact hne ((start_isSome hk).trans (start_isSome hk').symm)

/-- what a half of the loop comes to -/
inductive StepSpec (f : Forest) (need : Bool) (x : Option Layer) (mine theirs : Side) : Step → Prop where
  | found {a : Layer} {l : List Layer} {u : CGAffineTransform} : need = true → Climb f.up x l (some a) →
      theirs.map.lookup (some a) = some u → StepSpec f need x mine theirs (.found a (along f.step l) u)
  | moved {s : Side} : s.Inv f need x → Apart s theirs →
      (∀ rest, Climb f.up mine.superlayer rest none → ∃ rest', Climb f.up s.superlayer rest' none ∧ rest'.length = rest.length - 1) →
      StepSpec f need x mine theirs (.moved s)

/-- a side that does not write the next layer down, as there is none or it is not needed -/
theorem inv_quiet {l : Layer} (hm : mine.Inv f need x) (hl : mine.superlayer = some l)
    (hquiet : need = true → (f.layers l).superlayer = none) :
    Side.Inv f need x ⟨mine.map, (f.layers l).superlayer, mine.transform * f.step l⟩ := by
  obtain ⟨chain, hchain, htransform⟩ := hm.way
  rw [hl] at hchain
  refine ⟨⟨chain ++ [l], hchain.snoc, ?_⟩, hm.sound, fun hneed way k hk => ?_⟩
  · rw [along_snoc, htransform]
  · rcases hm.complete hneed way k hk with hin | ⟨rest, hrest, hclimb⟩
    · exact Or.inl hin
    · rw [hl] at hclimb
      cases hclimb with
      | here _ => exact absurd rfl hrest
      | step hnext =>
        have hnone := hquiet hneed
        rw [show f.up l = none from hnone] at hnext
        cases hnext

theorem inv_insert {l a : Layer} (hm : mine.Inv f need x) (hl : mine.superlayer = some l)
    (ha : (f.layers l).superlayer = some a) :
    Side.Inv f need x ⟨Assoc.insert (some a) (mine.transform * f.step l) mine.map, some a, mine.transform * f.step l⟩ := by
  obtain ⟨chain, hchain, htransform⟩ := hm.way
  rw [hl] at hchain
  have hclimb : Climb f.up x (chain ++ [l]) (some a) := ha ▸ hchain.snoc
  have halong : mine.transform * f.step l = along f.step (chain ++ [l]) := by
    rw [along_snoc, htransform]
  refine ⟨⟨chain ++ [l], hclimb, halong⟩, fun k t ht => ?_, fun hneed way k hk => ?_⟩
  · by_cases hka : k = a
    · subst hka
      rw [Assoc.lookup_insert_self] at ht
      exact ⟨chain ++ [l], hclimb, (Option.some.inj ht).symm.trans halong⟩
    · rw [Assoc.lookup_insert_of_ne (by simpa using hka)] at ht
      exact hm.sound k t ht
  · by_cases hka : k = a
    · subst hka
      exact Or.inl (by simp)
    · rw [Assoc.lookup_insert_of_ne (by simpa using hka)]
      rcases hm.complete hneed way k hk with hin | ⟨rest, hrest, hrestclimb⟩
      · exact Or.inl hin
      · rw [hl] at hrestclimb
        cases hrestclimb with
        | here _ => exact absurd rfl hrest
        | step hnext =>
          rw [show f.up l = some a from ha] at hnext
          refine Or.inr ⟨_, ?_, hnext⟩
          rintro rfl
          cases hnext
          exact hka rfl

theorem halfStep_spec (hm : mine.Inv f need x) (hapart : Apart mine theirs) :
    ∃ r, halfStep f.layers need mine theirs = .ok r ∧ StepSpec f need x mine theirs r := by
  unfold halfStep
  cases hl : mine.superlayer with
  | none =>
    refine ⟨.moved mine, rfl, .moved hm hapart fun rest hrest => ?_⟩
    rw [hl] at hrest ⊢
    obtain ⟨rfl, -⟩ := hrest.of_none
    exact ⟨[], hrest, rfl⟩
  | some l =>
    have hshorter : ∀ rest, Climb f.up mine.superlayer rest none →
        ∃ rest', Climb f.up (f.layers l).superlayer rest' none ∧ rest'.length = rest.length - 1 := by
      intro rest hrest
      rw [hl] at hrest
      cases hrest with
      | step hnext => exact ⟨_, hnext, rfl⟩
    simp only [superlayerToLayerTransform_eq, concat_eq, ok_bind]
    cases need with
    | false => exact ⟨_, rfl, .moved (inv_quiet hm hl (by simp)) hapart hshorter⟩
    | true =>
      cases ha : (f.layers l).superlayer with
      | none =>
        have hinv := inv_quiet hm hl (fun _ => ha)
        rw [ha] at hinv hshorter
        exact ⟨_, rfl, .moved hinv hapart hshorter⟩
      | some a =>
        rw [ha] at hshorter
        have hinsert := inv_insert hm hl ha
        obtain ⟨chain, hclimb, hway⟩ := hinsert.way
        dsimp only
        cases htheirs : theirs.map.lookup (some a) with
        | some u =>
          refine ⟨.found a (mine.transform * f.step l) u, rfl, ?_⟩
          rw [show mine.transform * f.step l = along f.step chain from hway]
          exact .found rfl hclimb htheirs
        | none =>
          refine ⟨_, rfl, .moved hinsert (fun k hk => ?_) hshorter⟩
          by_cases hka : k = a
          · subst hka
            simp [htheirs]
          · rw [Assoc.lookup_insert_of_ne (by simpa using hka)] at hk
            exact hapart k hk

/-- **How the walk ends**: at a place above both, or if there is none. -/
inductive WalkSpec (f : Forest) (need : Bool) (x y : Option Layer) :
    Except Panic (CGAffineTransform × CGAffineTransform) → Prop where
  | met {place : Option Layer} {l l' : List Layer} : Climb f.up x l place → Climb f.up y l' place → (need = true → place ≠ none) →
      WalkSpec f need x y (.ok (along f.step l, along f.step l'))
  | missed : need = true → (∀ k l l', Climb f.up x l (some k) → ¬Climb f.up y l' (some k)) →
      WalkSpec f need x y (.error .commonAncestor)

/-- once round the loop -/
theorem walk_round (rounds : ℕ) (hm : mine.Inv f need x) (ht : theirs.Inv f need y) (hapart : Apart mine theirs)
    (hrest : Climb f.up mine.superlayer rest none) (hrest' : Climb f.up theirs.superlayer rest' none)
    (hnext : ∀ s s' rest₁ rest₁', s.Inv f need x → s'.Inv f need y → Apart s s' → Climb f.up s.superlayer rest₁ none →
      Climb f.up s'.superlayer rest₁' none → rest₁.length = rest.length - 1 → rest₁'.length = rest'.length - 1 →
      ¬(s.superlayer = none ∧ s'.superlayer = none) → WalkSpec f need x y (walk f.layers need rounds s s')) :
    WalkSpec f need x y (walk f.layers need (rounds + 1) mine theirs) := by
  obtain ⟨r, hr, hspec⟩ := halfStep_spec hm hapart
  rw [walk, hr, ok_bind]
  cases hspec with
  | found _ hclimb htheirs =>
    obtain ⟨l', hclimb', rfl⟩ := ht.sound _ _ htheirs
    exact .met hclimb hclimb' fun _ => by simp
  | @moved s hs hsapart hshorter =>
    obtain ⟨r', hr', hspec'⟩ := halfStep_spec ht hsapart.symm
    simp only [hr', ok_bind]
    cases hspec' with
    | found _ hclimb hmine =>
      obtain ⟨l, hclimb', rfl⟩ := hs.sound _ _ hmine
      exact .met hclimb' hclimb fun _ => by simp
    | @moved s' hs' hsapart' hshorter' =>
      dsimp only
      by_cases hend : s.superlayer = none ∧ s'.superlayer = none
      · rw [if_pos hend]
        split_ifs with hneed
        · -- all layers above the two were written down
          refine .missed hneed fun k l l' hclimb hclimb' => ?_
          have hin : (s.map.lookup (some k)).isSome := by
            rcases hs.complete hneed l k hclimb with hin | ⟨above, -, habove⟩
            · exact hin
            · rw [hend.1] at habove
              cases habove
          have hin' : (s'.map.lookup (some k)).isSome := by
            rcases hs'.complete hneed l' k hclimb' with hin | ⟨above, -, habove⟩
            · exact hin
            · rw [hend.2] at habove
              cases habove
          exact hsapart' k hin' hin
        · obtain ⟨l, hclimb, htransform⟩ := hs.way
          obtain ⟨l', hclimb', htransform'⟩ := hs'.way
          rw [hend.1] at hclimb
          rw [hend.2] at hclimb'
          rw [htransform, htransform']
          exact .met hclimb hclimb' fun h => absurd h hneed
      · rw [if_neg hend]
        obtain ⟨rest₁, hrest₁, hlen₁⟩ := hshorter rest hrest
        obtain ⟨rest₁', hrest₁', hlen₁'⟩ := hshorter' rest' hrest'
        exact hnext s s' rest₁ rest₁' hs hs' hsapart'.symm hrest₁ hrest₁' hlen₁ hlen₁' hend

theorem climb_nil {p : Option Layer} (h : Climb f.up p rest none) (hlen : rest.length = 0) : p = none := by
  rw [List.length_eq_zero_iff] at hlen
  subst hlen
  cases h
  rfl

theorem walk_spec (rounds : ℕ) (hm : mine.Inv f need x) (ht : theirs.Inv f need y) (hapart : Apart mine theirs)
    (hrest : Climb f.up mine.superlayer rest none) (hrest' : Climb f.up theirs.superlayer rest' none)
    (hlen : rest.length ≤ rounds + 1) (hlen' : rest'.length ≤ rounds + 1) :
    WalkSpec f need x y (walk f.layers need (rounds + 1) mine theirs) := by
  induction rounds generalizing mine theirs rest rest' with
  | zero =>
    apply walk_round 0 hm ht hapart hrest hrest'
    intro s s' rest₁ rest₁' hs hs' hsapart hrest₁ hrest₁' hlen₁ hlen₁' hopen
    have hdone := climb_nil hrest₁ (by omega)
    have hdone' := climb_nil hrest₁' (by omega)
    exact absurd ⟨hdone, hdone'⟩ hopen
  | succ rounds ih =>
    apply walk_round (rounds + 1) hm ht hapart hrest hrest'
    intro s s' rest₁ rest₁' hs hs' hsapart hrest₁ hrest₁' hlen₁ hlen₁' hopen
    exact ih hs hs' hsapart hrest₁ hrest₁' (by omega) (by omega)

/-! ## Conversions -/

variable {p q : CGPoint} {rounds : ℕ}

theorem Forest.grounded_place (f : Forest) (x : Option Layer) : ∃ chain, Climb f.up x chain none := by
  cases x with
  | none => exact ⟨[], .here none⟩
  | some l => exact f.grounded l

/-- what a conversion comes to -/
inductive TransformSpec (f : Forest) (x y : Option Layer) : Except Panic CGAffineTransform → Prop where
  | ok {r : CGAffineTransform} : (∃ place, f.Meets x y place) →
      (∀ place ups downs, Climb f.up y ups place → Climb f.up x downs place →
        ∀ p, r.applyToPoint p = f.carryDown downs (f.carryUp ups p)) → TransformSpec f x y (.ok r)
  | error : (¬∃ place, f.Meets x y place) → TransformSpec f x y (.error .commonAncestor)

theorem transformForConversion_spec (f : Forest) (hne : x ≠ y) :
    ∃ n, ∀ rounds, n ≤ rounds → TransformSpec f x y (transformForConversion f.layers rounds x y) := by
  obtain ⟨top, htop⟩ := f.grounded_place x
  obtain ⟨top', htop'⟩ := f.grounded_place y
  have hsome : (x.isSome || y.isSome) = true := by
    cases x <;> cases y <;> simp at hne ⊢
  refine ⟨top.length + top'.length + 1, fun rounds hrounds => ?_⟩
  obtain ⟨k, rfl⟩ : ∃ k, rounds = k + 1 := ⟨rounds - 1, by omega⟩
  have hspec := walk_spec k (start_inv f (x.isSome && y.isSome) x) (start_inv f (x.isSome && y.isSome) y) (start_apart hne)
    htop htop' (by omega) (by omega)
  rw [transformForConversion, assert_ok hsome, ok_bind]
  dsimp only
  generalize walk f.layers (x.isSome && y.isSome) (k + 1) (.start x) (.start y) = w at hspec
  cases hspec with
  | @met place l l' hclimb hclimb' hplace =>
    rw [ok_bind, concat_eq]
    refine .ok ⟨place, ⟨l, hclimb⟩, ⟨l', hclimb'⟩, fun hx hy => hplace ?_⟩ fun place' ups downs hups hdowns p => ?_
    · cases x <;> cases y <;> simp at hx hy ⊢
    · -- the walk met at one place, and the other one gives the same
      have hmeet := meet_unique (r := along f.step l' * (along f.step l).invert) Forest.step_isUnit htop' hclimb hclimb' hdowns hups
        (by rw [mul_assoc, invert_mul (Forest.along_det l), mul_one])
      have hpoint := congrArg (fun t => t.applyToPoint p) hmeet
      simp only [apply_mul, Forest.apply_along] at hpoint
      simp only [apply_mul, Forest.apply_along]
      rw [← hpoint, Forest.carryDown_carryUp]
  | missed hneed hnone =>
    refine .error ?_
    rintro ⟨place, ⟨l, hclimb⟩, ⟨l', hclimb'⟩, hplace⟩
    rw [Bool.and_eq_true] at hneed
    cases place with
    | none => exact hplace (Option.isSome_iff_ne_none.1 hneed.1) (Option.isSome_iff_ne_none.1 hneed.2) rfl
    | some k => exact hnone k l l' hclimb hclimb'

theorem Forest.Meets.symm {place : Option Layer} (h : f.Meets x y place) : f.Meets y x place :=
  ⟨h.right, h.left, fun hy hx => h.layer hx hy⟩

/-- **What the conversions do** for a layer and another one, or nil. -/
structure Converts (f : Forest) (rounds : ℕ) (this : Layer) (other : Option Layer) (p : CGPoint) : Prop where
  terminates : convertPointFromLayer f.layers rounds this p other ≠ .error .tooDeep
  /-- there is a point if there is a common ancestor, or nil -/
  succeeds : (∃ q, convertPointFromLayer f.layers rounds this p other = .ok q) ↔ ∃ place, f.Meets (some this) other place
  /-- it is carried up the one chain and down the other, wherever these meet -/
  result : ∀ q, convertPointFromLayer f.layers rounds this p other = .ok q → ∀ place ups downs,
    f.Meets (some this) other place → Climb f.up other ups place → Climb f.up (some this) downs place →
    q = f.carryDown downs (f.carryUp ups p)
  undone : ∀ q, convertPointFromLayer f.layers rounds this p other = .ok q →
    convertPointToLayer f.layers rounds this q other = .ok p

/-- **Points are converted** along the chains of superlayers. -/
theorem convert_point (f : Forest) {this : Layer} {other : Option Layer} (hne : some this ≠ other) :
    ∃ n, ∀ rounds, n ≤ rounds → ∀ p, Converts f rounds this other p := by
  obtain ⟨n, hfrom⟩ := transformForConversion_spec f hne
  obtain ⟨n', hto⟩ := transformForConversion_spec f (Ne.symm hne)
  refine ⟨n + n', fun rounds hrounds p => ?_⟩
  have hfrom := hfrom rounds (by omega)
  have hto := hto rounds (by omega)
  have hfromEq : convertPointFromLayer f.layers rounds this p other =
      (transformForConversion f.layers rounds (some this) other >>= fun t => pure (t.applyToPoint p)) := if_neg hne
  have htoEq (q : CGPoint) : convertPointToLayer f.layers rounds this q other =
      (transformForConversion f.layers rounds other (some this) >>= fun t => pure (t.applyToPoint q)) := if_neg hne
  generalize transformForConversion f.layers rounds (some this) other = x at hfrom hfromEq
  generalize transformForConversion f.layers rounds other (some this) = y at hto htoEq
  cases hfrom with
  | error hno =>
    rw [error_bind] at hfromEq
    refine ⟨?_, iff_of_false ?_ hno, ?_, ?_⟩ <;> rw [hfromEq] <;> simp
  | @ok r hmeets hr =>
    rw [ok_bind] at hfromEq
    refine ⟨?_, iff_of_true ⟨_, hfromEq⟩ hmeets, ?_, ?_⟩
    · rw [hfromEq]
      simp
    · intro q hq place ups downs _ hups hdowns
      rw [hfromEq] at hq
      rw [← Except.ok.inj hq, hr place ups downs hups hdowns]
    · intro q hq
      rw [hfromEq] at hq
      obtain rfl := Except.ok.inj hq
      obtain ⟨place, hplace⟩ := hmeets
      rw [htoEq]
      cases hto with
      | error hno => exact absurd ⟨place, hplace.symm⟩ hno
      | @ok r' _ hr' =>
        obtain ⟨downs, hdowns⟩ := hplace.left
        obtain ⟨ups, hups⟩ := hplace.right
        rw [ok_bind, hr place ups downs hups hdowns, hr' place downs ups hdowns hups, Forest.carryUp_carryDown,
          Forest.carryDown_carryUp]
        rfl

/-- the layer 1 in the layer 0, and others by themselves -/
def pairLayers (l : Layer) : CALayerHostObject :=
  ⟨if l = 1 then some 0 else none, ⟨⟨0, 0⟩, ⟨10, 10⟩⟩, ⟨3, 4⟩, ⟨1 / 2, 1 / 2⟩, identity⟩

def pairForest : Forest where
  layers := pairLayers
  grounded l := by
    by_cases hl : l = 1
    · subst hl
      exact ⟨[1, 0], .step (.step (.here none))⟩
    · refine ⟨[l], .step ?_⟩
      simp only [pairLayers, if_neg hl]
      exact .here none
  invertible l := by
    change identity.det ≠ 0
    rw [← one_eq, det_one]
    exact one_ne_zero

theorem convert_point_pair : some 1 ≠ (some 0 : Option Layer) ∧
    ∃ n, ∀ rounds, n ≤ rounds → ∀ p, Converts pairForest rounds 1 (some 0) p :=
  ⟨by decide, convert_point pairForest (by decide)⟩

example : (convertPointFromLayer pairLayers 2 1 ⟨3, 4⟩ (some 0)).toOption = some ⟨5, 5⟩ := by decide +kernel

end CALayer

end TouchHLE
