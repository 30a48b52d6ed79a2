/-
Where instance variables are after `register_bin_classes`: classes are moved behind superclasses that have grown, from the
roots on. The addresses of the offsets of instance variables are moved with them, and not the offsets.

- `Growth`: by how much a class must be moved, from the class and its superclasses as they were read.
- `Reconciled`: a class is visited after its superclass, starts behind it and is moved as a whole. `OffsetsMove`: the
  offsets are those of other words that happen to be right.
- `Inv`: every class is registered under one name.
- `Progress`: the state of the third pass after some classes.
- `reconciled_iff`: which classes are as they must be.
-/
import TouchHLE.Objc.Classes

namespace TouchHLE.ObjC

open Machine Mem BreadthFirst

variable {F A : Type}

/-! ## What must hold -/

/-- the class is one of those that are known by name -/
def Registered (s : ObjC F A) (c : ℕ) : Prop := c ∈ s.classes.map Prod.snd

/-- the result of `alignUp` for the instance variables of a class, if there are any -/
def aligned (ivars : List (String × ℕ × ℕ)) (diff : ℕ) : ℕ :=
  if ivars.isEmpty then diff
  else diff + (maxAlignment ivars - 1) &&& (2 ^ 32 - 1 - (maxAlignment ivars - 1))

/-- by how much a class must be moved for a superclass of some size -/
def growthBelow (c : ClassHostObject F) (size : ℕ) : ℕ :=
  if c.instanceStart < size then aligned c.ivars (size - c.instanceStart) else 0

/-- by how much a class must be moved -/
inductive Growth (s : ObjC F A) : ℕ → ℕ → Prop where
  | root {a : ℕ} {c : ClassHostObject F} : s.Registered a → s.getClass a = some c → c.superclass = nil → Growth s a 0
  | subclass {a g : ℕ} {c sup : ClassHostObject F} : s.Registered a → s.getClass a = some c → c.superclass ≠ nil →
      s.getClass c.superclass = some sup → Growth s c.superclass g →
      Growth s a (growthBelow c (sup.instanceSize + g))

/-- the order in which the third pass takes the classes off its queue -/
def visitOrder (s : ObjC F A) (entries : List (String × ℕ)) : List ℕ :=
  match s.invertInheritance entries with
  | .ok g => order g.invertedInheritance entries.length g.queue
  | .error _ => []

/-- the class `a` is moved by `g` to behind its superclass -/
structure Reconciled (s s' : ObjC F A) (m : Mem) (visited : List ℕ) (a g : ℕ) (c : ClassHostObject F) : Prop where
  afterSuperclass : ∃ l₁ l₂, visited = l₁ ++ a :: l₂ ∧ c.superclass ∈ l₁
  behind : ∃ c' sup', s'.getClass a = some c' ∧ s'.getClass c.superclass = some sup' ∧
    sup'.instanceSize ≤ c'.instanceStart
  moved : ∃ c', s'.getClass a = some c' ∧ c'.instanceStart = c.instanceStart + g ∧
    c'.instanceSize = c.instanceSize + g
  offsets : ∀ name p align offset, c.ivars.lookup name = some (p, align) → p ≠ nil → m.readField p 4 0 = .ok offset →
    ∀ n, s'.ivarOffset m name (n + 1) a = .ok (some (offset + g))

/-- the class can be reached from a root through real classes, and so many bytes after the offset of each of its instance
variables stands that offset and so much more -/
def OffsetsMove (s : ObjC F A) (m : Mem) (a : ℕ) (c : ClassHostObject F) : Prop :=
  ∃ g, Growth s a g ∧ ∀ name p align offset, c.ivars.lookup name = some (p, align) → p ≠ nil →
    m.readField p 4 0 = .ok offset → m.readField (p + g) 4 0 = .ok (offset + g)

/-- every class is registered under one name and is an object -/
structure Inv (s : ObjC F A) : Prop where
  nodup : (s.classes.map Prod.snd).Nodup
  known : ∀ a, s.Registered a → s.objects a ≠ none

variable {s s' t : ObjC F A} {m : Mem} {a b g : ℕ} {c sup : ClassHostObject F} {i i' : Inheritance}
  {ivars ivars' : List (String × ℕ × ℕ)} {name : String} {seen : List ℕ} {t' : ObjC F A}

/-! ## The first pass -/

theorem registerBinSelector_frame {sel : ℕ} (h : s.registerBinSelector a m = .ok (sel, s')) :
    s'.objects = s.objects ∧ s'.classes = s.classes := by
  obtain ⟨str, -, h⟩ := bind_eq_ok.1 h
  cases hsel : s.selectors.lookup str <;> rw [hsel] at h <;> cases h <;> exact ⟨rfl, rfl⟩

theorem addMethods_frame {base entsize n i : ℕ} {methods methods' : List (ℕ × IMP F)}
    (h : addMethods m base entsize n i methods s = .ok (methods', s')) :
    s'.objects = s.objects ∧ s'.classes = s.classes := by
  induction n generalizing i methods s with
  | zero =>
    cases h
    exact ⟨rfl, rfl⟩
  | succ n ih =>
    obtain ⟨offset, -, h⟩ := bind_eq_ok.1 h
    obtain ⟨ptr, -, h⟩ := bind_eq_ok.1 h
    obtain ⟨name, -, h⟩ := bind_eq_ok.1 h
    obtain ⟨imp, -, h⟩ := bind_eq_ok.1 h
    obtain ⟨⟨sel, s₁⟩, hsel, h⟩ := bind_eq_ok.1 h
    obtain ⟨h1, h2⟩ := registerBinSelector_frame hsel
    obtain ⟨h3, h4⟩ := ih h
    exact ⟨h3.trans h1, h4.trans h2⟩

theorem fromBin_frame {isMetaclass : Bool} (h : fromBin a isMetaclass m s = .ok (c, s')) :
    s'.objects = s.objects ∧ s'.classes = s.classes := by
  obtain ⟨superclass, -, h⟩ := bind_eq_ok.1 h
  obtain ⟨data, -, h⟩ := bind_eq_ok.1 h
  obtain ⟨start, -, h⟩ := bind_eq_ok.1 h
  obtain ⟨size, -, h⟩ := bind_eq_ok.1 h
  obtain ⟨methodsPtr, -, h⟩ := bind_eq_ok.1 h
  obtain ⟨ivarsPtr, -, h⟩ := bind_eq_ok.1 h
  obtain ⟨name, -, h⟩ := bind_eq_ok.1 h
  obtain ⟨⟨methods, s₁⟩, hmethods, h⟩ := bind_eq_ok.1 h
  obtain ⟨ivars, -, h⟩ := bind_eq_ok.1 h
  cases h
  unfold addMethodsFromBin at hmethods
  split_ifs at hmethods
  · cases hmethods
    exact ⟨rfl, rfl⟩
  · obtain ⟨entsize, -, hmethods⟩ := bind_eq_ok.1 hmethods
    obtain ⟨count, -, hmethods⟩ := bind_eq_ok.1 hmethods
    obtain ⟨u, -, hmethods⟩ := bind_eq_ok.1 hmethods
    obtain ⟨base, -, hmethods⟩ := bind_eq_ok.1 hmethods
    exact addMethods_frame hmethods

theorem hostObjects_frame {o o' : HostObject F A} (h : hostObjects a b m s = .ok (name, o, o', s')) :
    s'.objects = s.objects ∧ s'.classes = s.classes := by
  obtain ⟨fake, -, h⟩ := bind_eq_ok.1 h
  cases fake with
  | some name =>
    cases h
    exact ⟨rfl, rfl⟩
  | none =>
    obtain ⟨⟨c, s₁⟩, h1, h⟩ := bind_eq_ok.1 h
    obtain ⟨⟨mc, s₂⟩, h2, h⟩ := bind_eq_ok.1 h
    obtain ⟨u, -, h⟩ := bind_eq_ok.1 h
    cases h
    obtain ⟨h3, h4⟩ := fromBin_frame h1
    obtain ⟨h5, h6⟩ := fromBin_frame h2
    exact ⟨h5.trans h3, h6.trans h4⟩

theorem registerStaticObject_cases {o : HostObject F A} (h : s.registerStaticObject a o = .ok s') :
    s.objects a = none ∧ s' = { s with objects := Function.update s.objects a (some ⟨o, none⟩) } := by
  obtain ⟨u, hnone, h⟩ := bind_eq_ok.1 h
  cases h
  exact ⟨Option.isNone_iff_eq_none.1 (assert_cases hnone), rfl⟩

theorem registerClass_inv (hi : s.Inv) (h : registerClass m a s = .ok s') : s'.Inv := by
  obtain ⟨metaclass, -, h⟩ := bind_eq_ok.1 h
  obtain ⟨⟨name, o, o', s₁⟩, hobjects, h⟩ := bind_eq_ok.1 h
  obtain ⟨s₂, h1, h⟩ := bind_eq_ok.1 h
  obtain ⟨s₃, h2, h⟩ := bind_eq_ok.1 h
  cases h
  obtain ⟨ho, hc⟩ := hostObjects_frame hobjects
  obtain ⟨hnone, rfl⟩ := registerStaticObject_cases h1
  obtain ⟨-, rfl⟩ := registerStaticObject_cases h2
  rw [ho] at hnone
  -- the class was no object, so it was not known by another name
  have hfresh : ∀ x ∈ s₁.classes, x.2 ≠ a := by
    rintro x hx rfl
    exact hi.known x.2 (List.mem_map.2 ⟨x, hc ▸ hx, rfl⟩) hnone
  refine ⟨?_, fun x hx => ?_⟩
  · show ((Assoc.insert name a s₁.classes).map Prod.snd).Nodup
    rw [Assoc.insert, List.map_cons, List.nodup_cons]
    constructor
    · intro hmem
      obtain ⟨x, hx, hxa⟩ := List.mem_map.1 hmem
      exact hfresh x (List.mem_filter.1 hx).1 hxa
    · exact (hc ▸ hi.nodup).sublist (List.filter_sublist.map Prod.snd)
  · obtain ⟨e, he, rfl⟩ := List.mem_map.1 hx
    simp only [Function.update_apply]
    split_ifs with h3 h4
    · exact Option.some_ne_none _
    · exact Option.some_ne_none _
    · rw [ho]
      rcases Assoc.mem_insert he with rfl | he
      · exact absurd rfl h4
      · exact hi.known e.2 (List.mem_map.2 ⟨e, hc ▸ he, rfl⟩)

theorem registerClasses_inv {base n i : ℕ} (hi : s.Inv) (h : registerClasses m base n i s = .ok s') : s'.Inv := by
  induction n generalizing i s with
  | zero =>
    cases h
    exact hi
  | succ n ih =>
    obtain ⟨ptr, -, h⟩ := bind_eq_ok.1 h
    obtain ⟨cls, -, h⟩ := bind_eq_ok.1 h
    obtain ⟨s₁, h1, h⟩ := bind_eq_ok.1 h
    exact ih (registerClass_inv hi h1) h

/-! ## The second pass -/

/-- the class is one below `p` -/
def IsBelow (s : ObjC F A) (p a : ℕ) : Bool :=
  match s.getClass a with
  | some c => c.superclass == p && p ≠ nil
  | none => false

def IsRoot (s : ObjC F A) (a : ℕ) : Bool :=
  match s.getClass a with
  | some c => c.superclass == nil
  | none => false

theorem note_cases (h : i.note name = .ok i') :
    i'.invertedInheritance = i.invertedInheritance ∧ i'.queue = i.queue := by
  unfold Inheritance.note at h
  split_ifs at h
  · obtain ⟨u, -, h⟩ := bind_eq_ok.1 h
    cases h
    exact ⟨rfl, rfl⟩
  · cases h
    exact ⟨rfl, rfl⟩

theorem add_cases (h : i.add a b = .ok i') :
    (∀ p, i'.invertedInheritance p = i.invertedInheritance p ++ if b = p ∧ p ≠ nil then [a] else []) ∧
      i'.queue = i.queue ++ if b = nil then [a] else [] := by
  unfold Inheritance.add at h
  split_ifs at h with hnil
  · cases h
    refine ⟨fun p => ?_, by simp [hnil]⟩
    by_cases hp : b = p
    · subst hp
      simp [hnil]
    · simp [Function.update_of_ne (Ne.symm hp), hp]
  · obtain ⟨u, -, h⟩ := bind_eq_ok.1 h
    cases h
    have hb : b = nil := not_not.1 hnil
    refine ⟨fun p => ?_, by simp [hb]⟩
    have hnot : ¬(b = p ∧ p ≠ nil) := fun h => h.2 (h.1 ▸ hb)
    simp [hnot]

theorem invertClass_cases (h : invertClass s i (name, a) = .ok i') :
    (∀ p, i'.invertedInheritance p = i.invertedInheritance p ++ [a].filter (s.IsBelow p)) ∧
      i'.queue = i.queue ++ [a].filter s.IsRoot := by
  obtain ⟨i₁, hnote, h⟩ := bind_eq_ok.1 h
  obtain ⟨o, ho, h⟩ := bind_eq_ok.1 h
  obtain ⟨h1, h2⟩ := note_cases hnote
  have hget : s.getHostObject a = some o := by
    cases hs : s.getHostObject a <;> rw [hs] at ho <;> cases ho
    rfl
  unfold IsBelow IsRoot getClass
  rw [← h1, ← h2]
  cases o with
  | realClass c =>
    obtain ⟨h3, h4⟩ := add_cases h
    refine ⟨fun p => ?_, ?_⟩
    · rw [h3 p]
      by_cases hp : c.superclass = p ∧ p ≠ nil
      · simp [hget, hp]
      · simp [hget, hp]
    · rw [h4]
      by_cases hroot : c.superclass = nil
      · simp [hget, hroot]
      · simp [hget, hroot]
  | unimplementedClass => cases h; simp [hget]
  | fakeClass => cases h; simp [hget]
  | other => cases h; simp [hget]

theorem invertAll_cases {entries : List (String × ℕ)} (h : entries.foldlM (invertClass s) i = .ok i') :
    (∀ p, i'.invertedInheritance p = i.invertedInheritance p ++ (entries.map Prod.snd).filter (s.IsBelow p)) ∧
      i'.queue = i.queue ++ (entries.map Prod.snd).filter s.IsRoot := by
  induction entries generalizing i with
  | nil =>
    cases h
    simp
  | cons e entries ih =>
    obtain ⟨i₁, h1, h2⟩ := bind_eq_ok.1 h
    obtain ⟨h3, h4⟩ := invertClass_cases h1
    obtain ⟨h5, h6⟩ := ih h2
    refine ⟨fun p => ?_, ?_⟩
    · rw [h5 p, h3 p, List.append_assoc, ← List.filter_append]
      rfl
    · rw [h6, h4, List.append_assoc, ← List.filter_append]
      rfl

/-- **The second pass**: the classes below each class, and the roots -/
theorem invertInheritance_cases {i : Inheritance} {entries : List (String × ℕ)} (h : s.invertInheritance entries = .ok i) :
    (∀ p, i.invertedInheritance p = (entries.map Prod.snd).filter (s.IsBelow p)) ∧
      i.queue = (entries.map Prod.snd).filter s.IsRoot := by
  obtain ⟨i', hall, h⟩ := bind_eq_ok.1 h
  obtain ⟨u, -, h⟩ := bind_eq_ok.1 h
  cases h
  exact invertAll_cases hall

theorem isBelow_iff {p : ℕ} : s.IsBelow p a = true ↔ ∃ c, s.getClass a = some c ∧ c.superclass = p ∧ p ≠ nil := by
  unfold IsBelow
  cases s.getClass a <;> simp

theorem isRoot_iff : s.IsRoot a = true ↔ ∃ c, s.getClass a = some c ∧ c.superclass = nil := by
  unfold IsRoot
  cases s.getClass a <;> simp

theorem forest {i : Inheritance} {entries : List (String × ℕ)} (h : s.invertInheritance entries = .ok i)
    (hnodup : (entries.map Prod.snd).Nodup) : Forest i.invertedInheritance i.queue := by
  obtain ⟨hgraph, hqueue⟩ := invertInheritance_cases h
  refine ⟨?_, fun p => ?_, fun {p q b} hp hq => ?_, fun {p b} hp hq => ?_⟩
  · rw [hqueue]
    exact hnodup.filter _
  · rw [hgraph p]
    exact hnodup.filter _
  · rw [hgraph, List.mem_filter] at hp hq
    obtain ⟨c, hc, rfl, -⟩ := isBelow_iff.1 hp.2
    obtain ⟨c', hc', rfl, -⟩ := isBelow_iff.1 hq.2
    rw [hc] at hc'
    cases hc'
    rfl
  · rw [hgraph, List.mem_filter] at hp
    rw [hqueue, List.mem_filter] at hq
    obtain ⟨c, hc, rfl, hne⟩ := isBelow_iff.1 hp.2
    obtain ⟨c', hc', hnil⟩ := isRoot_iff.1 hq.2
    rw [hc] at hc'
    cases hc'
    exact hne hnil

/-! ## The third pass -/

theorem sub_le_and_not {x k : ℕ} (hx : x < 2 ^ 32) (hk : k < 2 ^ 32) : x - k ≤ x &&& (2 ^ 32 - 1 - k) := by
  let a := BitVec.ofNat 32 x
  let b := BitVec.ofNat 32 k
  have ha : a.toNat = x := Nat.mod_eq_of_lt hx
  have hb : b.toNat = k := Nat.mod_eq_of_lt hk
  have hdisjoint : (a &&& b) &&& (a &&& ~~~b) = 0#32 := by
    ext i hi
    simp
    grind
  have hunion : (a &&& b) ||| (a &&& ~~~b) = a := by
    ext i hi
    simp
    grind
  have hsum : (a &&& b) + (a &&& ~~~b) = a := by rw [BitVec.add_eq_or_of_and_eq_zero _ _ hdisjoint, hunion]
  have hnat := congrArg BitVec.toNat hsum
  rw [BitVec.toNat_add, BitVec.toNat_and, BitVec.toNat_and, BitVec.toNat_not, ha, hb] at hnat
  have hle : x &&& k ≤ k := Nat.and_le_right
  omega

/-- an instance variable that is moved, unless it is an anonymous bitfield -/
def movedIvar (g : ℕ) (ivar : String × ℕ × ℕ) : String × ℕ × ℕ :=
  (ivar.1, if ivar.2.1 = nil then nil else ivar.2.1 + g, ivar.2.2)

/-- a class that is moved -/
def movedBy (c : ClassHostObject F) (g : ℕ) : ClassHostObject F :=
  { c with
    ivars := c.ivars.map (movedIvar g)
    instanceStart := c.instanceStart + g
    instanceSize := c.instanceSize + g }

theorem movedBy_zero : movedBy c 0 = c := by
  have hivar : movedIvar 0 = id := by
    funext ⟨name, p, align⟩
    unfold movedIvar
    split_ifs with hp
    · rw [← hp]
      rfl
    · rfl
  rw [movedBy, hivar, List.map_id]
  rfl

theorem moveIvar_cases {ivar ivar' : String × ℕ × ℕ} (h : moveIvar g ivar = .ok ivar') : ivar' = movedIvar g ivar := by
  unfold moveIvar at h
  unfold movedIvar
  split_ifs at h with hp
  · cases h
    rw [if_pos hp, ← hp]
  · obtain ⟨offset, hadd, h⟩ := bind_eq_ok.1 h
    cases h
    rw [if_neg hp, (add32_cases hadd).1]

theorem mapM_moveIvar (h : ivars.mapM (moveIvar g) = .ok ivars') :
    ivars' = ivars.map (movedIvar g) := by
  induction ivars generalizing ivars' with
  | nil =>
    cases h
    rfl
  | cons ivar ivars ih =>
    rw [List.mapM_cons] at h
    obtain ⟨ivar', h1, h⟩ := bind_eq_ok.1 h
    obtain ⟨rest, h2, h⟩ := bind_eq_ok.1 h
    cases h
    rw [moveIvar_cases h1, ih h2]
    rfl

theorem moveIvars_cases {diff : ℕ} (h : moveIvars ivars diff = .ok (g, ivars')) :
    g = aligned ivars diff ∧ ivars' = ivars.map (movedIvar g) ∧ diff ≤ g := by
  unfold moveIvars at h
  unfold aligned
  split_ifs at h ⊢ with hempty
  · cases h
    rw [List.isEmpty_iff.1 hempty]
    exact ⟨rfl, rfl, le_refl _⟩
  · obtain ⟨g', halign, h⟩ := bind_eq_ok.1 h
    obtain ⟨ivars₁, hmap, h⟩ := bind_eq_ok.1 h
    cases h
    obtain ⟨sum, hsum, halign⟩ := bind_eq_ok.1 halign
    obtain ⟨rfl, hlt⟩ := add32_cases hsum
    cases halign
    refine ⟨rfl, mapM_moveIvar hmap, ?_⟩
    have hle := sub_le_and_not (k := maxAlignment ivars - 1) hlt (by omega)
    rw [Nat.add_sub_cancel] at hle
    exact hle

theorem getClass_congr (h : t.objects a = s.objects a) : t.getClass a = s.getClass a := by
  unfold getClass getHostObject
  rw [h]

theorem getClass_setClass (h : s.getClass a = some c) (c' : ClassHostObject F) : (s.setClass a c').getClass a = some c' := by
  have ho := getHostObject_of_class h
  unfold getHostObject at ho
  cases hentry : s.objects a with
  | none =>
    rw [hentry] at ho
    cases ho
  | some entry =>
    have hself : (s.setClass a c').objects a = some { entry with hostObject := .realClass c' } := by
      simp [setClass, hentry]
    rw [getClass, getHostObject, hself]
    rfl

theorem objects_setClass (h : b ≠ a) : (s.setClass a c).objects b = s.objects b := Function.update_of_ne h _ _

theorem Growth.unique {g' : ℕ} (h : Growth s a g) (h' : Growth s a g') : g = g' := by
  induction h generalizing g' with
  | root hreg hc hnil =>
    cases h' with
    | root => rfl
    | subclass hreg' hc' hne =>
      rw [hc] at hc'
      cases hc'
      exact absurd hnil hne
  | subclass hreg hc hne hsup hg ih =>
    cases h' with
    | root hreg' hc' hnil =>
      rw [hc] at hc'
      cases hc'
      exact absurd hnil hne
    | subclass hreg' hc' hne' hsup' hg' =>
      rw [hc] at hc'
      cases hc'
      rw [hsup] at hsup'
      cases hsup'
      rw [ih hg']

/-- a class that is moved by `g` is behind its superclass -/
def Behind (s : ObjC F A) (c : ClassHostObject F) (g : ℕ) : Prop :=
  ∀ sup g', c.superclass ≠ nil → s.getClass c.superclass = some sup → Growth s c.superclass g' →
    sup.instanceSize + g' ≤ c.instanceStart + g

/-- **The third pass** after some classes: they are moved, and everything else is as it was. -/
structure Progress (s t : ObjC F A) (seen : List ℕ) : Prop where
  visited : ∀ a ∈ seen, ∃ c g, s.getClass a = some c ∧ Growth s a g ∧ Behind s c g ∧ t.getClass a = some (movedBy c g)
  rest : ∀ a, a ∉ seen → t.objects a = s.objects a

/-- a class that is moved -/
theorem Progress.move (hp : Progress s t seen) (hc : s.getClass a = some c)
    (hgrowth : Growth s a g) (hbehind : Behind s c g) (ha : t'.getClass a = some (movedBy c g)) (hother : ∀ b, b ≠ a → t'.objects b = t.objects b)
    (hseen : a ∉ seen) : Progress s t' (seen ++ [a]) := by
  constructor
  · intro b hb
    rcases List.mem_append.1 hb with hb | hb
    · obtain ⟨c', g', h1, h2, h3, h4⟩ := hp.visited b hb
      exact ⟨c', g', h1, h2, h3, (getClass_congr (hother b fun h => hseen (h ▸ hb))).trans h4⟩
    · rw [List.mem_singleton] at hb
      subst hb
      exact ⟨c, g, hc, hgrowth, hbehind, ha⟩
  · intro b hb
    have hb' : b ∉ seen ∧ b ≠ a := by simpa using hb
    exact (hother b hb'.2).trans (hp.rest b hb'.1)

/-- **One class of the third pass** -/
theorem reconcileClass_progress (hp : Progress s t seen) (hreg : s.Registered a)
    (hc : s.getClass a = some c) (hseen : a ∉ seen) (hparent : c.superclass = nil ∨ c.superclass ∈ seen)
    (h : t.reconcileClass a = .ok t') : Progress s t' (seen ++ [a]) := by
  have ht : t.getClass a = some c := (getClass_congr (hp.rest a hseen)).trans hc
  obtain ⟨⟨need, diff⟩, hneed, h⟩ := bind_eq_ok.1 h
  rw [needIvarReconciliation, getHostObject_of_class ht] at hneed
  simp only [unwrap, ok_bind] at hneed
  have hstay (hgrowth : Growth s a 0) (hbehind : Behind s c 0) (htt : t = t') : Progress s t' (seen ++ [a]) := by
    subst htt
    exact hp.move hc hgrowth hbehind (by rw [movedBy_zero]; exact ht) (fun _ _ => rfl) hseen
  by_cases hnil : c.superclass = nil
  · rw [if_pos hnil] at hneed
    cases hneed
    cases h
    exact hstay (.root hreg hc hnil) (fun _ _ hne => absurd hnil hne) rfl
  · obtain ⟨sup, g, hsup, hgrowth, -, htsup⟩ := hp.visited c.superclass (hparent.resolve_left hnil)
    have hbelow := Growth.subclass hreg hc hnil hsup hgrowth
    have hbehind {k : ℕ} (hk : sup.instanceSize + g ≤ c.instanceStart + k) : Behind s c k := by
      intro sup' g' _ hsup' hg'
      rw [hsup] at hsup'
      cases hsup'
      rw [hg'.unique hgrowth]
      exact hk
    rw [if_neg hnil, getHostObject_of_class htsup] at hneed
    simp only [ok_bind] at hneed
    unfold growthBelow at hbelow
    change (if c.instanceStart < sup.instanceSize + g then _ else _) = _ at hneed
    split_ifs at hneed hbelow with hlt
    · cases hneed
      obtain ⟨c', hborrow, h⟩ := bind_eq_ok.1 h
      obtain ⟨⟨g', ivars⟩, hmove, h⟩ := bind_eq_ok.1 h
      obtain ⟨start, hstart, h⟩ := bind_eq_ok.1 h
      obtain ⟨size, hsize, h⟩ := bind_eq_ok.1 h
      rw [borrowClass_of_class ht] at hborrow
      cases hborrow
      cases h
      obtain ⟨hg, hivars, hle⟩ := moveIvars_cases hmove
      obtain rfl := (add32_cases hstart).1
      obtain rfl := (add32_cases hsize).1
      change Growth s a (aligned c.ivars (sup.instanceSize + g - c.instanceStart)) at hbelow
      have hg' : g' = aligned c.ivars (sup.instanceSize + g - c.instanceStart) := hg
      rw [← hg'] at hbelow
      have hle' : sup.instanceSize + g - c.instanceStart ≤ g' := hle
      refine hp.move hc hbelow (hbehind (by omega)) ?_ (fun b hb => objects_setClass hb) hseen
      rw [getClass_setClass ht, hivars]
      rfl
    · cases hneed
      cases h
      exact hstay hbelow (hbehind (by omega)) rfl

theorem run_progress {entries : List (String × ℕ)} {i : Inheritance} {l seen rest : List ℕ}
    (hi : s.invertInheritance entries = .ok i) (hperm : entries.Perm s.classes)
    (hl : l = seen ++ rest) (hnodup : l.Nodup) (hparent : ∀ l₁ b l₂, l = l₁ ++ b :: l₂ → b ∈ i.queue ∨
      ∃ p ∈ l₁, b ∈ i.invertedInheritance p)
    (hp : Progress s t seen) (hr : run reconcileClass t rest = .ok s') : Progress s s' l := by
  obtain ⟨hgraph, hqueue⟩ := invertInheritance_cases hi
  have hregistered (b : ℕ) (hb : b ∈ entries.map Prod.snd) : s.Registered b := (hperm.map Prod.snd).mem_iff.1 hb
  induction rest generalizing t seen with
  | nil =>
    cases hr
    rw [hl, List.append_nil]
    exact hp
  | cons a rest ih =>
    obtain ⟨t', h1, h2⟩ := run_cons_ok.1 hr
    have hseen : a ∉ seen := by
      rw [hl] at hnodup
      exact fun ha => (List.nodup_append.1 hnodup).2.2 a ha a List.mem_cons_self rfl
    have hl' : l = (seen ++ [a]) ++ rest := by
      rw [hl, List.append_assoc]
      rfl
    refine ih hl' ?_ h2
    rcases hparent seen a rest hl with hroot | ⟨p, hp', hbelow⟩
    · rw [hqueue, List.mem_filter] at hroot
      obtain ⟨c, hc, hnil⟩ := isRoot_iff.1 hroot.2
      exact reconcileClass_progress hp (hregistered a hroot.1) hc hseen (.inl hnil) h1
    · rw [hgraph, List.mem_filter] at hbelow
      obtain ⟨c, hc, rfl, -⟩ := isBelow_iff.1 hbelow.2
      exact reconcileClass_progress hp (hregistered a hbelow.1) hc hseen (.inr hp') h1

section

variable {entries : List (String × ℕ)}

/-- **The whole third pass**: the classes that have a growth are visited, each after its superclass, and moved by it. -/
theorem reconcile_spec (hinv : s.Inv) (hperm : entries.Perm s.classes) (hr : s.reconcile entries = .ok s') :
    (s.visitOrder entries).Nodup ∧ (∀ a, a ∈ s.visitOrder entries ↔ ∃ g, Growth s a g) ∧
      (∀ l₁ a l₂ c, s.visitOrder entries = l₁ ++ a :: l₂ → s.getClass a = some c → c.superclass ≠ nil → c.superclass ∈ l₁) ∧
      Progress s s' (s.visitOrder entries) := by
  obtain ⟨i, hi, hr⟩ := bind_eq_ok.1 hr
  obtain ⟨hgraph, hqueue⟩ := invertInheritance_cases hi
  have hnodup : (entries.map Prod.snd).Nodup := (hperm.map Prod.snd).nodup_iff.2 hinv.nodup
  have hf := forest hi hnodup
  have hnodes : ∀ a, Reached i.invertedInheritance i.queue a → a ∈ entries.map Prod.snd := by
    intro a ha
    cases ha with
    | root ha =>
      rw [hqueue] at ha
      exact (List.mem_filter.1 ha).1
    | child _ ha =>
      rw [hgraph] at ha
      exact (List.mem_filter.1 ha).1
  have hleft := left_eq_nil hf hnodes (le_of_eq (List.length_map Prod.snd))
  have horder : s.visitOrder entries = order i.invertedInheritance entries.length i.queue := by
    rw [visitOrder, hi]
  rw [bfs_eq_run hleft] at hr
  have hparent := fun l₁ b l₂ (h : order i.invertedInheritance entries.length i.queue = l₁ ++ b :: l₂) =>
    order_parent hf hleft h
  have hprogress : Progress s s' (s.visitOrder entries) := by
    rw [horder]
    exact run_progress hi hperm rfl (order_nodup hf hleft) hparent
      ⟨fun a ha => absurd ha List.not_mem_nil, fun a _ => rfl⟩ hr
  refine ⟨horder ▸ order_nodup hf hleft, fun a => ⟨?_, ?_⟩, fun l₁ a l₂ c hl hc hne => ?_, hprogress⟩
  · intro ha
    obtain ⟨c, g, -, hg, -, -⟩ := hprogress.visited a ha
    exact ⟨g, hg⟩
  · rintro ⟨g, hg⟩
    rw [horder, mem_order hf hleft]
    induction hg with
    | root hreg hc hnil =>
      refine .root ?_
      rw [hqueue, List.mem_filter]
      exact ⟨(hperm.map Prod.snd).mem_iff.2 hreg, isRoot_iff.2 ⟨_, hc, hnil⟩⟩
    | subclass hreg hc hne hsup hg ih =>
      refine .child ih ?_
      rw [hgraph, List.mem_filter]
      exact ⟨(hperm.map Prod.snd).mem_iff.2 hreg, isBelow_iff.2 ⟨_, hc, rfl, hne⟩⟩
  · rw [horder] at hl
    rcases hparent l₁ a l₂ hl with hroot | ⟨p, hp, hbelow⟩
    · rw [hqueue, List.mem_filter] at hroot
      obtain ⟨c', hc', hnil⟩ := isRoot_iff.1 hroot.2
      rw [hc] at hc'
      cases hc'
      exact absurd hnil hne
    · rw [hgraph, List.mem_filter] at hbelow
      obtain ⟨c', hc', rfl, -⟩ := isBelow_iff.1 hbelow.2
      rw [hc] at hc'
      cases hc'
      exact hp

/-- the offset of an instance variable of a class that was moved -/
theorem ivarOffset_moved {name : String} {p align n : ℕ} (ht : t.getClass a = some (movedBy c g))
    (hivar : c.ivars.lookup name = some (p, align)) (hp : p ≠ nil) :
    t.ivarOffset m name (n + 1) a = m.readField (p + g) 4 0 >>= fun offset => .ok (some offset) := by
  have hlookup : (movedBy c g).ivars.lookup name = some (p + g, align) := by
    have hmap := Assoc.lookup_mapValues (f := fun e => (if e.1 = nil then nil else e.1 + g, e.2)) (l := c.ivars) (k := name)
    rw [hivar] at hmap
    change (c.ivars.map (movedIvar g)).lookup name = some (p + g, align)
    rw [← if_neg (α := ℕ) hp (t := nil) (e := p + g)]
    exact hmap
  rw [ivarOffset, borrowClass_of_class ht, ok_bind, hlookup]
  rfl

/-- **Which classes are as they must be.** After all passes, a class with a superclass that is a real class has been visited
after it, is moved to behind it, and its instance variables are moved by the same amount, exactly if real classes lead from
it to a root and the words that are read as offsets, so many bytes after the offsets, are the moved offsets already. -/
theorem reconciled_iff {hashOrder : List (String × ℕ) → List (String × ℕ)} {list : Section} {start : ObjC F A}
    (hinv : start.Inv) (horder : ∀ l, (hashOrder l).Perm l) (hs : registerClasses m list.addr (list.size / 4) 0 start = .ok s)
    (hr : registerBinClasses hashOrder (some list) m start = .ok s') (hc : s.getClass a = some c)
    (hne : c.superclass ≠ nil) (hsup : s.getClass c.superclass = some sup) :
    (∃ g, Reconciled s s' m (s.visitOrder (hashOrder s.classes)) a g c) ↔ s.OffsetsMove m a c := by
  obtain ⟨u, -, hr⟩ := bind_eq_ok.1 hr
  rw [hs, ok_bind] at hr
  obtain ⟨hnodup, hmem, hafter, hprogress⟩ := reconcile_spec (registerClasses_inv hinv hs) (horder _) hr
  have hfinal {b g : ℕ} {k : ClassHostObject F} (hk : s.getClass b = some k) (hg : Growth s b g) :
      Behind s k g ∧ s'.getClass b = some (movedBy k g) := by
    obtain ⟨k', g', hk', hg', hbehind, ht⟩ := hprogress.visited b ((hmem b).2 ⟨g, hg⟩)
    rw [hk] at hk'
    cases hk'
    rw [hg.unique hg']
    exact ⟨hbehind, ht⟩
  constructor
  · rintro ⟨g, hrec⟩
    obtain ⟨l₁, l₂, hl, -⟩ := hrec.afterSuperclass
    obtain ⟨g', hg'⟩ := (hmem a).1 (by rw [hl]; simp)
    obtain ⟨c', hc', hstart, -⟩ := hrec.moved
    have ht := (hfinal hc hg').2
    rw [ht] at hc'
    cases hc'
    obtain rfl : g' = g := Nat.add_left_cancel hstart
    refine ⟨g', hg', fun name p align offset hivar hp hread => ?_⟩
    have hoffset := hrec.offsets name p align offset hivar hp hread 0
    rw [ivarOffset_moved ht hivar hp] at hoffset
    obtain ⟨word, hword, hsome⟩ := bind_eq_ok.1 hoffset
    rw [hword, Option.some.inj (Except.ok.inj hsome)]
  · rintro ⟨g, hg, hwords⟩
    obtain ⟨hbehind, ht⟩ := hfinal hc hg
    obtain ⟨l₁, l₂, hl⟩ := List.append_of_mem ((hmem a).2 ⟨g, hg⟩)
    have hsuperclass := hafter l₁ a l₂ c hl hc hne
    obtain ⟨g', hg'⟩ := (hmem c.superclass).1 (by rw [hl]; exact List.mem_append_left _ hsuperclass)
    refine ⟨g, ⟨l₁, l₂, hl, hsuperclass⟩, ⟨_, _, ht, (hfinal hsup hg').2, hbehind sup g' hne hsup hg'⟩, ⟨_, ht, rfl, rfl⟩, ?_⟩
    intro name p align offset hivar hp hread n
    rw [ivarOffset_moved ht hivar hp, hwords name p align offset hivar hp hread, ok_bind]

end

/-! ## A superclass that has grown -/

/-- two classes, A below B: B ends at 12, and A with its instance variable "x" was made for a B that ends at 8 -/
def grownImage : List (ℕ × UInt32) :=
  [(0x100, 0x1000), (0x104, 0x1100),
   (0x1000, 0x1080), (0x1004, 0x10), (0x1010, 0x1020), (0x1024, 4), (0x1028, 12), (0x1030, 0x2000), (0x1090, 0x1020),
   (0x1100, 0x1180), (0x1104, 0x1000), (0x1110, 0x1120), (0x1124, 8), (0x1128, 12), (0x1130, 0x2004), (0x113c, 0x1200),
   (0x1190, 0x1120), (0x1200, 20), (0x1204, 1), (0x1208, 0x3000), (0x120c, 0x2008), (0x1214, 4),
   (0x2000, 0x42), (0x2004, 0x41), (0x2008, 0x78), (0x3000, 8)]

def grownMem : Mem := ⟨grownImage.foldl (fun b (a, w) => Words.storeWord b a w) (fun _ => 0), 0⟩

/-- the state before: there is the class NSObject -/
def grownStart : ObjC Unit Unit where
  selectors := []
  objects := fun a => if a = 0x10 then some ⟨.realClass ⟨"NSObject", false, nil, [], [], 4, 4⟩, none⟩ else none
  classes := [("NSObject", 0x10)]
  messageTypeInfo := none

def classA : ClassHostObject Unit := ⟨"A", false, 0x1000, [], [("x", 0x3000, 4)], 8, 12⟩

def classB : ClassHostObject Unit := ⟨"B", false, 0x10, [], [], 4, 12⟩

theorem grownStart_inv : grownStart.Inv where
  nodup := List.nodup_singleton _
  known a ha := by
    obtain rfl : a = 0x10 := by simpa [Registered, grownStart] using ha
    exact Option.some_ne_none _

/-- the state after the first pass -/
def grownFirst : ObjC Unit Unit := ((registerClasses grownMem 0x100 2 0 grownStart).toOption).getD .new

/-- the state after all passes -/
def grownLast : ObjC Unit Unit := ((registerBinClasses id (some ⟨0x100, 8, none⟩) grownMem grownStart).toOption).getD .new

theorem grownFirst_eq : registerClasses grownMem 0x100 2 0 grownStart = .ok grownFirst :=
  eq_ok_of_toOption (by decide +kernel)

theorem grownLast_eq : registerBinClasses id (some ⟨0x100, 8, none⟩) grownMem grownStart = .ok grownLast :=
  eq_ok_of_toOption (by decide +kernel)

theorem grownFirst_classes : grownFirst.getClass 0x1100 = some classA ∧ grownFirst.getClass 0x1000 = some classB := by
  decide +kernel

theorem reconciled_iff_grown : (∃ g, Reconciled grownFirst grownLast grownMem (grownFirst.visitOrder grownFirst.classes) 0x1100 g
    classA) ↔ grownFirst.OffsetsMove grownMem 0x1100 classA :=
  @reconciled_iff _ _ grownFirst grownLast grownMem 0x1100 classA classB id ⟨0x100, 8, none⟩ grownStart grownStart_inv
    (fun l => List.Perm.refl l) grownFirst_eq grownLast_eq grownFirst_classes.1 (by decide) grownFirst_classes.2

/-- **The address of an offset is moved, and not the offset.** The class A is moved by 4 bytes, and its instance variable is
read at the offset 0. -/
theorem offset_address_moved : ¬∀ (hashOrder : List (String × ℕ) → List (String × ℕ)) (list : Section) (m : Mem)
    (start s s' : ObjC Unit Unit) (a : ℕ) (c sup : ClassHostObject Unit), start.Inv → (∀ l, (hashOrder l).Perm l) →
    registerClasses m list.addr (list.size / 4) 0 start = .ok s →
    registerBinClasses hashOrder (some list) m start = .ok s' → s.getClass a = some c → c.superclass ≠ nil →
    s.getClass c.superclass = some sup → ∃ g, Reconciled s s' m (s.visitOrder (hashOrder s.classes)) a g c := by
  intro hall
  obtain ⟨g, hrec⟩ := hall id ⟨0x100, 8, none⟩ grownMem grownStart grownFirst grownLast 0x1100 classA classB grownStart_inv
    (fun l => List.Perm.refl l) grownFirst_eq grownLast_eq grownFirst_classes.1 (by decide) grownFirst_classes.2
  have hread : grownMem.readField 0x3000 4 0 = .ok 8 := by decide +kernel
  have hoffset := hrec.offsets "x" 0x3000 4 8 (by decide) (by decide) hread 0
  have hzero : grownLast.ivarOffset grownMem "x" 1 0x1100 = .ok (some 0) := by decide +kernel
  rw [hzero] at hoffset
  have hnum : 0 = 8 + g := Option.some.inj (Except.ok.inj hoffset)
  omega

end TouchHLE.ObjC
