/-
Messages (`messages.rs`, `methods.rs`): which implementation a message calls.

- `msgSendInner`, `msgSendSuper2`, `classHasMethod`: the functions of the source. Calling the implementation is not part of
  the model: it is what the first two return.
- `Hierarchy`: a class hierarchy of real classes without cycles.
- `Responds`: the implementation of the nearest class that defines a selector.
- `lookup_spec`: what the loop finds. `MsgOp`, `step`: messages of the host and the guest, and everything between them.
- `message_resolution`: messages call the nearest implementation, unless the host has sent another type than its own.
-/
import TouchHLE.Objc.Objects
import TouchHLE.Abi.Args

namespace TouchHLE.ObjC

open Machine Mem Abi

variable {F A : Type}

structure MsgEnv (F A : Type) where
  objc : ObjC F A
  mem : Mem
  regs : Regs

namespace MsgEnv

/-- `message_type_info.take()` -/
def taken (e : MsgEnv F A) : MsgEnv F A := { e with objc := { e.objc with messageTypeInfo := none } }

/-- the type of the message that the host is about to send -/
def pending (e : MsgEnv F A) (type : ℕ) : MsgEnv F A := { e with objc := { e.objc with messageTypeInfo := some type } }

/-- `regs_mut()[0..2].fill(0)` -/
def zeroed (e : MsgEnv F A) : MsgEnv F A := { e with regs := (e.regs.set 0 0 r0_lt).set 1 0 r1_lt }

end MsgEnv

/-! ## Sending messages -/

/-- what happens to a message: an implementation is called, or zero is returned -/
inductive Reply (F : Type) where
  | call (imp : IMP F)
  | zero
deriving DecidableEq

/-- the type check before an implementation is called, for the types of host methods -/
def checkType (typeInfo : F → Except Panic ℕ) (messageTypeInfo : Option ℕ) (imp : IMP F) : Except Panic Unit :=
  match imp, messageTypeInfo with
  | .host f, some sent => do
    let expected ← typeInfo f
    assert (sent == expected) .typeMismatch
  | _, _ => pure ()

/-- the loop of `objc_msgSend_inner`, for at most so many classes; nothing if there is a fake class -/
def lookupImp (s : ObjC F A) (selector origClass : ℕ) (super2 : Bool) : ℕ → ℕ → Except Panic (Option (IMP F))
  | 0, _ => throw .notEnabled
  | n + 1, cls =>
    if cls = nil then throw .doesNotRespond
    else do
      let hostObject ← unwrap (s.getHostObject cls) .missing
      match hostObject with
      | .realClass c =>
        -- the first class of a super-call is skipped
        if super2 ∧ cls = origClass then lookupImp s selector origClass super2 n c.superclass
        else
          match c.methods.lookup selector with
          | some imp => pure (some imp)
          | none => lookupImp s selector origClass super2 n c.superclass
      | .unimplementedClass _ _ => throw .unimplementedClass
      | .fakeClass _ _ => pure none
      | .other _ => throw .hostObject

/-- `super2.unwrap_or_else(read_isa)` -/
def originalClass (m : Mem) (receiver : ℕ) : Option ℕ → Except Panic ℕ
  | some cls => pure cls
  | none => readIsa m receiver

/-- `objc_msgSend_inner` -/
def msgSendInner (typeInfo : F → Except Panic ℕ) (n : ℕ) (e : MsgEnv F A) (receiver selector : ℕ) (super2 : Option ℕ) :
    Except Panic (Reply F × MsgEnv F A) :=
  let messageTypeInfo := e.objc.messageTypeInfo
  let e := e.taken
  if receiver = nil then pure (.zero, e.zeroed)
  else do
    let origClass ← originalClass e.mem receiver super2
    assert (origClass ≠ nil) .nilClass
    let imp ← e.objc.lookupImp selector origClass super2.isSome n origClass
    match imp with
    | some imp => do
      checkType typeInfo messageTypeInfo imp
      pure (.call imp, e)
    | none => pure (.zero, e.zeroed)

/-- `objc_msgSendSuper2`: the receiver takes the place of the pointer to it and the class -/
def msgSendSuper2 (typeInfo : F → Except Panic ℕ) (n : ℕ) (e : MsgEnv F A) (superPtr selector : ℕ) :
    Except Panic (Reply F × MsgEnv F A) := do
  let receiver ← e.mem.readField superPtr 8 0
  let cls ← e.mem.readField superPtr 8 4
  msgSendInner typeInfo n { e with regs := e.regs.set 0 (UInt32.ofNat receiver) r0_lt } receiver selector (some cls)

/-- `class_has_method`, for at most so many classes -/
def classHasMethod (s : ObjC F A) (sel : ℕ) : ℕ → ℕ → Except Panic Bool
  | 0, _ => throw .notEnabled
  | n + 1, cls => do
    let c ← s.borrowClass cls
    if (c.methods.lookup sel).isSome then pure true
    else if c.superclass = nil then pure false
    else classHasMethod s sel n c.superclass

/-! ## What is called -/

/-- `p` is the superclass of `a` -/
def IsSuperclass (s : ObjC F A) (p a : ℕ) : Prop := ∃ c, s.getClass a = some c ∧ c.superclass = p ∧ p ≠ nil

/-- all superclasses are real classes, and there is no cycle -/
structure Hierarchy (s : ObjC F A) : Prop where
  no_class : s.getClass nil = none
  real : ∀ p a, s.IsSuperclass p a → ∃ c, s.getClass p = some c
  acyclic : WellFounded s.IsSuperclass

/-- the nearest class at or above `a` that defines the selector defines it as `imp` -/
inductive Responds (s : ObjC F A) (sel : ℕ) : ℕ → IMP F → Prop where
  | own {a : ℕ} {c : ClassHostObject F} {imp : IMP F} : s.getClass a = some c → c.methods.lookup sel = some imp →
      Responds s sel a imp
  | inherited {a : ℕ} {c : ClassHostObject F} {imp : IMP F} : s.getClass a = some c → c.methods.lookup sel = none →
      c.superclass ≠ nil → Responds s sel c.superclass imp → Responds s sel a imp

/-- the type of the message is the one that the method expects, if the host has sent it to a host method -/
def TypesAgree (typeInfo : F → Except Panic ℕ) : Option ℕ → IMP F → Prop
  | some sent, .host f => typeInfo f = .ok sent
  | _, _ => True

inductive MsgOp (F A : Type) where
  /-- the host sends a message of some type, or the guest sends one -/
  | send (type : Option ℕ) (receiver selector : ℕ)
  | sendSuper (type : Option ℕ) (superPtr selector : ℕ)
  /-- anything else that changes the state between two messages -/
  | work (objects : ℕ → Option (HostObjectEntry F A)) (mem : Mem) (regs : Regs)

/-- the state in which a message is sent (`msg_send`) -/
def sending (e : MsgEnv F A) : Option ℕ → MsgEnv F A
  | some type => e.pending type
  | none => e

def step (typeInfo : F → Except Panic ℕ) (n : ℕ) (e : MsgEnv F A) : MsgOp F A → Except Panic (MsgEnv F A)
  | .send type receiver selector => do
    let (_, e) ← msgSendInner typeInfo n (sending e type) receiver selector none
    pure e
  | .sendSuper type superPtr selector => do
    let (_, e) ← msgSendSuper2 typeInfo n (sending e type) superPtr selector
    pure e
  | .work objects mem regs => pure { objc := { e.objc with objects }, mem, regs }

/-! ## The loops -/

variable {s : ObjC F A} {sel a p : ℕ} {c : ClassHostObject F} {imp imp' : IMP F} {typeInfo : F → Except Panic ℕ}
  {super2 : Bool} {orig n : ℕ}

theorem responds_iff (hc : s.getClass a = some c) : Responds s sel a imp ↔ c.methods.lookup sel = some imp ∨
    c.methods.lookup sel = none ∧ c.superclass ≠ nil ∧ Responds s sel c.superclass imp := by
  constructor
  · intro h
    cases h with
    | own hc' himp =>
      rw [hc] at hc'
      cases hc'
      exact .inl himp
    | inherited hc' hnone hne h =>
      rw [hc] at hc'
      cases hc'
      exact .inr ⟨hnone, hne, h⟩
  · rintro (himp | ⟨hnone, hne, h⟩)
    · exact .own hc himp
    · exact .inherited hc hnone hne h

theorem Hierarchy.ne_nil (hh : s.Hierarchy) (hc : s.getClass a = some c) : a ≠ nil := by
  rintro rfl
  rw [hh.no_class] at hc
  cases hc

theorem isSuperclass (hc : s.getClass a = some c) (hne : c.superclass ≠ nil) : s.IsSuperclass c.superclass a :=
  ⟨c, hc, rfl, hne⟩

/-- one class of the loop of `objc_msgSend_inner` -/
theorem lookupImp_real (hh : s.Hierarchy) (hc : s.getClass a = some c) :
    s.lookupImp sel orig super2 (n + 1) a =
      if super2 ∧ a = orig then s.lookupImp sel orig super2 n c.superclass
      else match c.methods.lookup sel with
        | some imp => .ok (some imp)
        | none => s.lookupImp sel orig super2 n c.superclass := by
  rw [lookupImp, if_neg (hh.ne_nil hc), getHostObject_of_class hc]
  rfl

/-- the loop above the last class -/
theorem lookupImp_nil : s.lookupImp (A := A) sel orig super2 (n + 1) nil = .error .doesNotRespond := by
  rw [lookupImp, if_pos rfl]
  rfl

/-- **The loop finds the nearest implementation**, from a class on that is above the one to be skipped. -/
theorem lookup_spec {orig : ℕ} (hh : s.Hierarchy) (hc : s.getClass a = some c)
    (hskip : super2 = true → ∀ b, Relation.ReflTransGen s.IsSuperclass b a → b ≠ orig) :
    ∃ k, ∀ n ≥ k, ∀ x, s.lookupImp sel orig super2 n a = .ok x ↔ ∃ imp, x = some imp ∧ Responds s sel a imp := by
  induction a using hh.acyclic.induction generalizing c with
  | _ a ih =>
    have hnot : ¬(super2 = true ∧ a = orig) := fun h => hskip h.1 a .refl h.2
    cases hown : c.methods.lookup sel with
    | some imp =>
      refine ⟨1, fun n hn x => ?_⟩
      obtain ⟨n, rfl⟩ := Nat.exists_eq_add_of_le' hn
      rw [lookupImp_real hh hc, if_neg hnot, hown]
      simp only [responds_iff hc, hown, Except.ok.injEq]
      constructor
      · rintro rfl
        exact ⟨imp, rfl, .inl rfl⟩
      · rintro ⟨imp', rfl, h⟩
        rcases h with h | ⟨h, -⟩
        · exact h
        · cases h
    | none =>
      by_cases hne : c.superclass = nil
      · refine ⟨2, fun n hn x => ?_⟩
        obtain ⟨n, rfl⟩ := Nat.exists_eq_add_of_le' hn
        rw [lookupImp_real hh hc, if_neg hnot, hown, hne]
        simp only [lookupImp_nil, responds_iff hc, hown, hne]
        simp
      · have hbelow := isSuperclass hc hne
        obtain ⟨sup, hsup⟩ := hh.real _ _ hbelow
        have hskip' : super2 = true → ∀ b, Relation.ReflTransGen s.IsSuperclass b c.superclass → b ≠ orig :=
          fun h b hb => hskip h b (hb.tail hbelow)
        obtain ⟨k, hk⟩ := ih c.superclass hbelow hsup hskip'
        refine ⟨k + 1, fun n hn x => ?_⟩
        obtain ⟨n, rfl⟩ := Nat.exists_eq_add_of_le' (show 1 ≤ n by omega)
        rw [lookupImp_real hh hc, if_neg hnot, hown]
        simp only [hk n (by omega), responds_iff hc, hown]
        simp [hne]

/-- **`class_has_method` asks whether there is an implementation.** -/
theorem classHasMethod_spec (hh : s.Hierarchy) (hc : s.getClass a = some c) :
    ∃ k, ∀ n ≥ k, ∃ b, s.classHasMethod sel n a = .ok b ∧ (b = true ↔ ∃ imp, Responds s sel a imp) := by
  induction a using hh.acyclic.induction generalizing c with
  | _ a ih =>
    have hone (n : ℕ) : s.classHasMethod sel (n + 1) a =
        if (c.methods.lookup sel).isSome then .ok true
        else if c.superclass = nil then .ok false
        else s.classHasMethod sel n c.superclass := by
      rw [classHasMethod, borrowClass_of_class hc]
      rfl
    cases hown : c.methods.lookup sel with
    | some imp =>
      refine ⟨1, fun n hn => ⟨true, ?_, fun _ => ⟨imp, .own hc hown⟩, fun _ => rfl⟩⟩
      obtain ⟨n, rfl⟩ := Nat.exists_eq_add_of_le' hn
      rw [hone, hown]
      rfl
    | none =>
      by_cases hne : c.superclass = nil
      · refine ⟨1, fun n hn => ⟨false, ?_, ?_⟩⟩
        · obtain ⟨n, rfl⟩ := Nat.exists_eq_add_of_le' hn
          rw [hone, hown, if_neg (by simp), if_pos hne]
        · simp only [responds_iff hc, hown, hne]
          simp
      · have hbelow := isSuperclass hc hne
        obtain ⟨sup, hsup⟩ := hh.real _ _ hbelow
        obtain ⟨k, hk⟩ := ih c.superclass hbelow hsup
        refine ⟨k + 1, fun n hn => ?_⟩
        obtain ⟨n, rfl⟩ := Nat.exists_eq_add_of_le' (show 1 ≤ n by omega)
        obtain ⟨b, hb, hiff⟩ := hk n (by omega)
        refine ⟨b, ?_, ?_⟩
        · rw [hone, hown, if_neg (by simp), if_neg hne, hb]
        · rw [hiff]
          simp only [responds_iff hc, hown]
          simp [hne]

/-! ## Messages -/

theorem checkType_iff {sent : Option ℕ} : checkType typeInfo sent imp = .ok () ↔ TypesAgree typeInfo sent imp := by
  cases imp with
  | guest addr => simp [checkType, TypesAgree]
  | host f =>
    cases sent with
    | none => simp [checkType, TypesAgree]
    | some sent =>
      simp only [checkType, TypesAgree]
      cases typeInfo f with
      | error e => simp
      | ok expected =>
        rw [ok_bind, assert_eq_ok, beq_iff_eq, Except.ok.injEq]
        exact eq_comm

theorem lookupImp_congr {t : ObjC F A} (h : t.objects = s.objects) :
    t.lookupImp sel orig super2 n a = s.lookupImp sel orig super2 n a := by
  have hget (b : ℕ) : t.getHostObject b = s.getHostObject b := by rw [getHostObject, getHostObject, h]
  induction n generalizing a with
  | zero => rfl
  | succ n ih => simp only [lookupImp, hget, ih]

/-- a message to an object, when the loop is known to find what `P` says -/
theorem msgSendInner_spec {e : MsgEnv F A} {receiver n : ℕ} {super2 : Option ℕ} {P : IMP F → Prop} (hne : receiver ≠ nil)
    (hclass : originalClass e.mem receiver super2 = .ok a) (ha : a ≠ nil)
    (hlookup : ∀ x, e.objc.lookupImp sel a super2.isSome n a = .ok x ↔ ∃ imp, x = some imp ∧ P imp)
    (r : Reply F × MsgEnv F A) : msgSendInner typeInfo n e receiver sel super2 = .ok r ↔
      ∃ imp, P imp ∧ TypesAgree typeInfo e.objc.messageTypeInfo imp ∧ r = (.call imp, e.taken) := by
  have hloop : e.taken.objc.lookupImp sel a super2.isSome n a = e.objc.lookupImp sel a super2.isSome n a :=
    lookupImp_congr rfl
  rw [msgSendInner, if_neg hne]
  change (originalClass e.mem receiver super2 >>= _) = _ ↔ _
  rw [hclass, ok_bind, assert_ok (by simpa using ha), ok_bind, hloop]
  constructor
  · intro h
    obtain ⟨x, hx, h⟩ := bind_eq_ok.1 h
    obtain ⟨imp, rfl, himp⟩ := (hlookup x).1 hx
    obtain ⟨u, hcheck, h⟩ := bind_eq_ok.1 h
    cases h
    exact ⟨imp, himp, checkType_iff.1 hcheck, rfl⟩
  · rintro ⟨imp, himp, htypes, rfl⟩
    rw [(hlookup (some imp)).2 ⟨imp, rfl, himp⟩, ok_bind]
    change (checkType typeInfo e.objc.messageTypeInfo imp >>= _) = _
    rw [checkType_iff.2 htypes]
    rfl

theorem lookup_super {k : ℕ} (hh : s.Hierarchy) (hc : s.getClass k = some c) :
    ∃ N, ∀ n ≥ N, ∀ x, s.lookupImp sel k true n k = .ok x ↔
      ∃ imp, x = some imp ∧ c.superclass ≠ nil ∧ Responds s sel c.superclass imp := by
  by_cases hne : c.superclass = nil
  · refine ⟨2, fun n hn x => ?_⟩
    obtain ⟨n, rfl⟩ := Nat.exists_eq_add_of_le' hn
    rw [lookupImp_real hh hc, if_pos ⟨rfl, rfl⟩, hne, lookupImp_nil]
    simp
  · have hbelow := isSuperclass hc hne
    obtain ⟨sup, hsup⟩ := hh.real _ _ hbelow
    have hskip : true = true → ∀ b, Relation.ReflTransGen s.IsSuperclass b c.superclass → b ≠ k := by
      rintro - b hb rfl
      have hcycle : Relation.TransGen s.IsSuperclass b b := Relation.TransGen.tail' hb hbelow
      exact hh.acyclic.transGen.irrefl.irrefl b hcycle
    obtain ⟨N, hN⟩ := lookup_spec hh hsup hskip
    refine ⟨N + 1, fun n hn x => ?_⟩
    obtain ⟨n, rfl⟩ := Nat.exists_eq_add_of_le' (show 1 ≤ n by omega)
    rw [lookupImp_real hh hc, if_pos ⟨rfl, rfl⟩, hN n (by omega)]
    simp [hne]

/-! ## Types of messages -/

theorem msgSendInner_taken {e : MsgEnv F A} {n receiver : ℕ} {super2 : Option ℕ} {r : Reply F × MsgEnv F A}
    (h : msgSendInner typeInfo n e receiver sel super2 = .ok r) : r.2.objc.messageTypeInfo = none := by
  unfold msgSendInner at h
  split_ifs at h with hnil
  · cases h
    rfl
  · obtain ⟨orig, -, h⟩ := bind_eq_ok.1 h
    obtain ⟨u, -, h⟩ := bind_eq_ok.1 h
    obtain ⟨imp, -, h⟩ := bind_eq_ok.1 h
    cases imp with
    | none =>
      cases h
      rfl
    | some imp =>
      obtain ⟨u, -, h⟩ := bind_eq_ok.1 h
      cases h
      rfl

/-- **A type that is sent is taken by the message that it is sent for.** -/
theorem step_taken {e e' : MsgEnv F A} {n : ℕ} {o : MsgOp F A} (he : e.objc.messageTypeInfo = none)
    (h : step typeInfo n e o = .ok e') : e'.objc.messageTypeInfo = none := by
  cases o with
  | send type receiver selector =>
    obtain ⟨⟨reply, e₁⟩, hsend, h⟩ := bind_eq_ok.1 h
    cases h
    exact msgSendInner_taken hsend
  | sendSuper type superPtr selector =>
    obtain ⟨⟨reply, e₁⟩, hsend, h⟩ := bind_eq_ok.1 h
    cases h
    obtain ⟨receiver, -, hsend⟩ := bind_eq_ok.1 hsend
    obtain ⟨cls, -, hsend⟩ := bind_eq_ok.1 hsend
    exact msgSendInner_taken hsend
  | work objects mem regs =>
    cases h
    exact he

/-- **Messages.** In a hierarchy of real classes without cycles, a message calls the implementation of the nearest class at
or above that of the receiver which defines the selector, and a super-call that of the nearest class above the given one;
it panics if there is none, or if the host has sent it with another type than that of the host method. A class has a
method exactly if a message without a type calls one. A message to nil returns zero. In every run of messages, the type
that the host has sent is gone after the message. -/
theorem message_resolution (typeInfo : F → Except Panic ℕ) (e : MsgEnv F A) (sel : ℕ) (hh : e.objc.Hierarchy) :
    (∀ n super2, msgSendInner typeInfo n e nil sel super2 = .ok (.zero, e.taken.zeroed)) ∧
    (∀ receiver a c, receiver ≠ nil → readIsa e.mem receiver = .ok a → e.objc.getClass a = some c → ∃ k, ∀ n ≥ k,
      (∀ r, msgSendInner typeInfo n e receiver sel none = .ok r ↔
        ∃ imp, Responds e.objc sel a imp ∧ TypesAgree typeInfo e.objc.messageTypeInfo imp ∧ r = (.call imp, e.taken)) ∧
      ∃ b, e.objc.classHasMethod sel n a = .ok b ∧
        (b = true ↔ ∃ r, msgSendInner typeInfo n e.taken receiver sel none = .ok r)) ∧
    (∀ receiver a c, receiver ≠ nil → e.objc.getClass a = some c → ∃ k, ∀ n ≥ k, ∀ r,
      msgSendInner typeInfo n e receiver sel (some a) = .ok r ↔
        ∃ imp, (c.superclass ≠ nil ∧ Responds e.objc sel c.superclass imp) ∧
          TypesAgree typeInfo e.objc.messageTypeInfo imp ∧ r = (.call imp, e.taken)) ∧
    ∀ n ops e', e.objc.messageTypeInfo = none → run (step typeInfo n) e ops = .ok e' → e'.objc.messageTypeInfo = none := by
  refine ⟨fun n super2 => ?_, fun receiver a c hne hisa hc => ?_, fun receiver a c hne hc => ?_, fun n ops e' he hr => ?_⟩
  · rw [msgSendInner, if_pos rfl]
    rfl
  · have ha := hh.ne_nil hc
    have hclass : originalClass e.mem receiver none = .ok a := hisa
    obtain ⟨k, hk⟩ : ∃ k, ∀ n ≥ k, ∀ x, e.objc.lookupImp sel a false n a = .ok x ↔
        ∃ imp, x = some imp ∧ Responds e.objc sel a imp := lookup_spec hh hc fun h => nomatch h
    obtain ⟨k', hk'⟩ := classHasMethod_spec hh hc
    refine ⟨max k k', fun n hn => ⟨fun r => ?_, ?_⟩⟩
    · exact msgSendInner_spec hne hclass ha (hk n (by omega)) r
    · obtain ⟨b, hb, hiff⟩ := hk' n (by omega)
      refine ⟨b, hb, hiff.trans ?_⟩
      have hlookup : ∀ x, e.taken.objc.lookupImp sel a false n a = .ok x ↔
          ∃ imp, x = some imp ∧ Responds e.objc sel a imp := by
        intro x
        rw [lookupImp_congr (s := e.objc) (t := e.taken.objc) rfl]
        exact hk n (by omega) x
      have hsend := @msgSendInner_spec _ _ _ _ typeInfo e.taken _ n none _ hne hclass ha hlookup
      constructor
      · rintro ⟨imp, himp⟩
        exact ⟨_, (hsend _).2 ⟨imp, himp, by cases imp <;> trivial, rfl⟩⟩
      · rintro ⟨r, hr⟩
        obtain ⟨imp, himp, -⟩ := (hsend r).1 hr
        exact ⟨imp, himp⟩
  · obtain ⟨k, hk⟩ := lookup_super hh hc
    exact ⟨k, fun n hn r => msgSendInner_spec hne rfl (hh.ne_nil hc) (hk n hn) r⟩
  · exact run_inv (P := fun e => e.objc.messageTypeInfo = none) (fun _ _ _ he hs => step_taken he hs) he hr

/-! ## A message of another type -/

/-- a root class at 0x10 with one host method, and an object of it at 0x100; the host sends a message of some type -/
def sampleEnv (type : Option ℕ) : MsgEnv Unit Unit where
  objc :=
    { selectors := []
      objects := fun a => if a = 0x10 then some ⟨.realClass ⟨"NSObject", false, nil, [(1, .host ())], [], 4, 4⟩, none⟩ else none
      classes := [("NSObject", 0x10)]
      messageTypeInfo := type }
  mem := ⟨Words.storeWord (fun _ => 0) 0x100 0x10, 0⟩
  regs := Vector.replicate 16 0

theorem sampleEnv_class (type : Option ℕ) :
    (sampleEnv type).objc.getClass 0x10 = some ⟨"NSObject", false, nil, [(1, .host ())], [], 4, 4⟩ := rfl

theorem sampleEnv_hierarchy (type : Option ℕ) : (sampleEnv type).objc.Hierarchy := by
  have hroot (p a : ℕ) : ¬(sampleEnv type).objc.IsSuperclass p a := by
    rintro ⟨c, hc, hp, hne⟩
    by_cases ha : a = 0x10
    · subst ha
      rw [sampleEnv_class] at hc
      cases hc
      exact hne hp.symm
    · have hnone : (sampleEnv type).objc.getClass a = none := by
        unfold getClass getHostObject sampleEnv
        simp only [if_neg ha]
        rfl
      rw [hnone] at hc
      cases hc
  exact ⟨rfl, fun p a h => absurd h (hroot p a), ⟨fun a => ⟨a, fun p h => absurd h (hroot p a)⟩⟩⟩

theorem message_resolution_own : ∃ k, ∀ n ≥ k,
    msgSendInner (fun _ => .ok 2) n (sampleEnv none) 0x100 1 none = .ok (.call (.host ()), sampleEnv none) := by
  have hisa : readIsa (sampleEnv none).mem 0x100 = .ok 0x10 := by decide +kernel
  obtain ⟨k, hk⟩ := (message_resolution (fun _ => .ok 2) (sampleEnv none) 1 (sampleEnv_hierarchy none)).2.1 0x100 0x10 _
    (by decide) hisa (sampleEnv_class none)
  exact ⟨k, fun n hn => ((hk n hn).1 _).2 ⟨.host (), .own (sampleEnv_class none) rfl, trivial, rfl⟩⟩

/-- **A message can panic although a class defines its selector**: when the host has sent it with another type. -/
theorem message_of_other_type : ¬∀ (typeInfo : Unit → Except Panic ℕ) (e : MsgEnv Unit Unit) (receiver sel a : ℕ)
    (c : ClassHostObject Unit), e.objc.Hierarchy → receiver ≠ nil → readIsa e.mem receiver = .ok a →
    e.objc.getClass a = some c → ∃ k, ∀ n ≥ k,
      ((∃ r, msgSendInner typeInfo n e receiver sel none = .ok r) ↔ ∃ imp, Responds e.objc sel a imp) := by
  intro hall
  have hisa : readIsa (sampleEnv (some 1)).mem 0x100 = .ok 0x10 := by decide +kernel
  obtain ⟨k, hk⟩ := hall (fun _ => .ok 2) (sampleEnv (some 1)) 0x100 1 0x10 _ (sampleEnv_hierarchy _) (by decide) hisa
    (sampleEnv_class _)
  obtain ⟨r, hr⟩ := (hk (k + 1) (Nat.le_succ k)).2 ⟨.host (), .own (sampleEnv_class _) rfl⟩
  have hpanic : msgSendInner (fun _ => .ok 2) (k + 1) (sampleEnv (some 1)) 0x100 1 none = .error .typeMismatch := by
    rw [msgSendInner, if_neg (by decide)]
    change (readIsa (sampleEnv (some 1)).mem 0x100 >>= _) = _
    rw [hisa]
    rfl
  rw [hpanic] at hr
  cases hr

end TouchHLE.ObjC
