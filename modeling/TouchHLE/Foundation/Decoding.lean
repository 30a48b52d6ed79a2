/-
What unarchiving an object leaves and asks for (`ns_keyed_unarchiver.rs`), for any `initWithCoder:`.

- `Reached`: the states of an unarchiver in which a message can come to it.
- `questions`: the references that a method asks for, with the state in which it does. `calls`: all that follow from one.
- `Serves`: what can be said of every reference that is asked for in a scope. `Serves.runCoder`, `Serves.questions`: then it
  holds of the whole method, and of all its questions in their order.
-/
import TouchHLE.Foundation.KeyedUnarchiver

namespace TouchHLE

open Machine

def Value.refers (v : Value) (u : ℕ) : Prop := v = .uid u ∨ ∃ items, v = .array items ∧ .uid u ∈ items

namespace Unarchiver

/-- the states in which a message can come: after `initForReadingWithData:`, after another reference was unarchived, in an
`initWithCoder:`, and after the method has created objects -/
inductive Reached (c : Classes) (plist : List (String × Value)) : Unarchiver → Prop where
  | init {s : Unarchiver} : Unarchiver.init plist = .ok s → Reached c plist s
  | unarchived {s s' : Unarchiver} {depth key : ℕ} {object : Id} : Reached c plist s →
      unarchiveKey c depth s key = .ok (object, s') → Reached c plist s'
  | entered {s s' : Unarchiver} {key classKey : ℕ} {dict : List (String × Value)} {className : String} : Reached c plist s →
      s.alreadyUnarchived[key]? = some none → s.objects[key]? = some (.dictionary dict) →
      (dict.lookup "$class").bind Value.asUid = some classKey → s.classFor c classKey = .ok (.known className, s') →
      Reached c plist ({ s' with currentKey := some key }.create (.instance className)).2
  | created {s : Unarchiver} (o : GuestObject) : Reached c plist s → Reached c plist (s.create o).2

/-- the unarchiver at the beginning -/
theorem init_cases {plist : List (String × Value)} {objects : List Value} {s : Unarchiver}
    (hobjects : (plist.lookup "$objects").bind Value.asArray = some objects) (h : init plist = .ok s) :
    ∃ top, s = ⟨objects, top, none, List.replicate objects.length none, []⟩ := by
  obtain ⟨version, -, h⟩ := bind_eq_ok.1 h
  obtain ⟨-, -, h⟩ := bind_eq_ok.1 h
  obtain ⟨archiver, -, h⟩ := bind_eq_ok.1 h
  obtain ⟨-, -, h⟩ := bind_eq_ok.1 h
  obtain ⟨objects', hobjects', h⟩ := bind_eq_ok.1 h
  obtain ⟨top, -, h⟩ := bind_eq_ok.1 h
  rw [hobjects] at hobjects'
  cases hobjects'
  cases h
  exact ⟨top, rfl⟩

/-- what decoding leaves as it is -/
structure Same (s s' : Unarchiver) : Prop where
  objects : s'.objects = s.objects
  top : s'.top = s.top
  currentKey : s'.currentKey = s.currentKey

theorem Same.refl (s : Unarchiver) : Same s s := ⟨rfl, rfl, rfl⟩

theorem Same.trans {s s' s'' : Unarchiver} (h : Same s s') (h' : Same s' s'') : Same s s'' :=
  ⟨h'.objects.trans h.objects, h'.top.trans h.top, h'.currentKey.trans h.currentKey⟩

/-- a text is decoded to a new object with it -/
theorem unarchiveKey_string {c : Classes} {s : Unarchiver} {uid : ℕ} {text : String}
    (hnew : s.alreadyUnarchived[uid]? = some none) (hitem : s.objects[uid]? = some (.string text)) (depth : ℕ) : ∃ object s',
      unarchiveKey c (depth + 1) s uid = .ok (object, s') ∧ s'.objectAt object = some (.string text) := by
  refine ⟨(s.create (.string text)).1, (s.create (.string text)).2.remember uid (s.create (.string text)).1, ?_, ?_⟩
  · rw [unarchiveKey, hnew, unwrap, ok_bind, hitem]
    rfl
  · exact List.getElem?_concat_length

/-- what a dictionary is decoded from -/
theorem decodeCurrentDict_cases {unarchive : Unarchiver → ℕ → Except Panic (Id × Unarchiver)} {s s' : Unarchiver}
    {pairs : List (Id × Id)} (h : s.decodeCurrentDict unarchive = .ok (pairs, s')) :
    ∃ keys vals keyObjects valObjects s₁, s.keysForKey "NS.keys" = .ok keys ∧ s.keysForKey "NS.objects" = .ok vals ∧
      unarchiveAll unarchive keys s = .ok (keyObjects, s₁) ∧ unarchiveAll unarchive vals s₁ = .ok (valObjects, s') ∧
      pairs = keyObjects.zip valObjects := by
  obtain ⟨keys, hkeys, hrest⟩ := bind_eq_ok.1 h
  obtain ⟨vals, hvals, hrest⟩ := bind_eq_ok.1 hrest
  obtain ⟨⟨keyObjects, s₁⟩, hfirst, hrest⟩ := bind_eq_ok.1 hrest
  obtain ⟨⟨valObjects, s₂⟩, hsecond, hlast⟩ := bind_eq_ok.1 hrest
  cases hlast
  exact ⟨keys, vals, keyObjects, valObjects, s₁, hkeys, hvals, hfirst, hsecond, rfl⟩

/-! ## Questions -/

/-- what follows if there is a result -/
def following {α β : Type} (more : α → Unarchiver → List β) : Except Panic (α × Unarchiver) → List β
  | .ok (a, s) => more a s
  | .error _ => []

section

variable (unarchive : Unarchiver → ℕ → Except Panic (Id × Unarchiver))

/-- references that are asked for in turn -/
def askedAll : List ℕ → Unarchiver → List (Unarchiver × ℕ)
  | [], _ => []
  | key :: keys, s => (s, key) :: following (fun _ s => askedAll keys s) (unarchive s key)

/-- what the unarchiver is asked for by a method -/
def questions : Coder → Unarchiver → List (Unarchiver × ℕ)
  | .done _, _ => []
  | .decodeObject key next, s =>
    (match s.valueForKey key with
      | .ok value => askedAll unarchive (value.bind Value.asUid).toList s
      | .error _ => []) ++
    following (fun object s => questions (next object) s) (s.decodeObjectForKey unarchive key)
  | .decodeArray next, s =>
    (match s.keysForKey "NS.objects" with
      | .ok keys => askedAll unarchive keys s
      | .error _ => []) ++
    following (fun objects s => questions (next objects) s) (s.decodeCurrentArray unarchive)
  | .decodeDict next, s =>
    (match s.keysForKey "NS.keys", s.keysForKey "NS.objects" with
      | .ok keys, .ok vals => askedAll unarchive (keys ++ vals) s
      | _, _ => []) ++
    following (fun pairs s => questions (next pairs) s) (s.decodeCurrentDict unarchive)
  | .decodeValue key next, s =>
    match s.valueForKey key with
    | .ok value => questions (next value) s
    | .error _ => []
  | .create o next, s => questions (next (s.create o).1) (s.create o).2

end

/-- the method that unarchiving an item calls, in the state in which it does -/
def methodFor (c : Classes) (s : Unarchiver) (key : ℕ) : Option (Coder × Unarchiver) :=
  match s.objects[key]? with
  | some (.dictionary dict) =>
    match (dict.lookup "$class").bind Value.asUid with
    | none => none
    | some classKey =>
      match s.classFor c classKey with
      | .ok (.known className, s) =>
        some (c.initWithCoder className ({ s with currentKey := some key }.create (.instance className)).1,
          ({ s with currentKey := some key }.create (.instance className)).2)
      | _ => none
  | _ => none

/-- a call of `unarchive_key` -/
structure Call where
  depth : ℕ
  state : Unarchiver
  key : ℕ

def Call.result (c : Classes) (q : Call) : Except Panic (Id × Unarchiver) := unarchiveKey c q.depth q.state q.key

/-- all calls that follow from one, that one first -/
def calls (c : Classes) : ℕ → Unarchiver → ℕ → List Call
  | 0, s, key => [⟨0, s, key⟩]
  | n + 1, s, key =>
    ⟨n + 1, s, key⟩ ::
      match s.alreadyUnarchived[key]? with
      | some none =>
        match s.methodFor c key with
        | some (coder, s) => (questions (unarchiveKey c n) coder s).flatMap fun q => calls c n q.1 q.2
        | none => []
      | _ => []

/-! ## What holds of all references in a scope -/

variable {s s' s₀ : Unarchiver} {unarchive : Unarchiver → ℕ → Except Panic (Id × Unarchiver)} {F : Panic → Prop}
  {Rel : Unarchiver → Unarchiver → Prop} {R : ℕ → Prop} {c : Classes} {key : ℕ}

theorem ends_unwrap {α : Type} {x : Option α} {e : Panic} {P : α → Prop} (he : F e) (h : ∀ v, x = some v → P v) :
    Ends F P (unwrap x e) := by
  cases x with
  | none => exact he
  | some v => exact h v rfl

theorem Same.valueForKey (h : Same s₀ s) (key : String) : s.valueForKey key = s₀.valueForKey key := by
  unfold Unarchiver.valueForKey scope
  rw [h.objects, h.top, h.currentKey]

/-- Every reference of the scope of `s₀` has the property `R`; unarchiving it fails only as `F` says, and leaves a state
that `Rel` relates to the one before. -/
structure Serves (unarchive : Unarchiver → ℕ → Except Panic (Id × Unarchiver)) (F : Panic → Prop)
    (Rel : Unarchiver → Unarchiver → Prop) (R : ℕ → Prop) (s₀ : Unarchiver) : Prop where
  missing : F .missing
  index : F .index
  refl : ∀ s, Rel s s
  trans : ∀ {s s' s''}, Rel s s' → Rel s' s'' → Rel s s''
  create : ∀ s o, Rel s (s.create o).2
  same : ∀ {s s'}, Rel s s' → Same s s'
  scope : ∀ {key v u}, s₀.valueForKey key = .ok (some v) → v.refers u → R u
  unarchive : ∀ s w, Rel s₀ s → R w → Ends F (fun r => Rel s r.2) (unarchive s w)

/-- the answers to questions that come one after the other: `x` is what they end with -/
structure Answered {α : Type} (unarchive : Unarchiver → ℕ → Except Panic (Id × Unarchiver))
    (Rel : Unarchiver → Unarchiver → Prop) (R : ℕ → Prop) (qs : List (Unarchiver × ℕ)) (s : Unarchiver)
    (x : Except Panic (α × Unarchiver)) : Prop where
  asked : ∀ q ∈ qs, Rel s q.1 ∧ R q.2
  chain : qs.Pairwise fun q q' => ∃ o t, unarchive q.1 q.2 = .ok (o, t) ∧ Rel t q'.1
  answers : ∀ a t, x = .ok (a, t) → ∀ q ∈ qs, ∃ o t', unarchive q.1 q.2 = .ok (o, t') ∧ Rel t' t

namespace Serves

theorem of_same (h : Serves unarchive F Rel R s₀) (hs : Rel s₀ s) : Serves unarchive F Rel R s where
  missing := h.missing
  index := h.index
  refl := h.refl
  trans := h.trans
  create := h.create
  same := h.same
  scope hv := h.scope ((h.same hs).valueForKey _ ▸ hv)
  unarchive t w ht := h.unarchive t w (h.trans hs ht)

theorem valueForKey (h : Serves unarchive F Rel R s₀) (key : String) :
    Ends F (fun v => ∀ u, v.bind Value.asUid = some u → R u) (s₀.valueForKey key) := by
  have hends : Ends F (fun _ => True) (s₀.valueForKey key) := by
    unfold Unarchiver.valueForKey Unarchiver.scope
    cases s₀.currentKey with
    | none => trivial
    | some k => exact (ends_unwrap h.index fun _ _ => trivial).bind fun _ _ => trivial
  refine hends.of_ok fun v hv u hu => ?_
  cases v with
  | none => cases hu
  | some x =>
    cases x with
    | uid w =>
      cases hu
      exact h.scope hv (.inl rfl)
    | _ => cases hu

theorem keysForKey (h : Serves unarchive F Rel R s₀) (key : String) :
    Ends F (fun keys => ∀ u ∈ keys, R u) (s₀.keysForKey key) := by
  have hmapM : ∀ {items : List Value}, (∀ u, .uid u ∈ items → R u) →
      Ends F (fun keys => ∀ u ∈ keys, R u) (items.mapM fun value => unwrap value.asUid .missing) := by
    intro items hitems
    induction items with
    | nil => exact fun u hu => by cases hu
    | cons v items ih =>
      rw [List.mapM_cons]
      refine Ends.bind (P := R) (ends_unwrap h.missing fun u hu => ?_) fun u hu => ?_
      · cases v with
        | uid w =>
          cases hu
          exact hitems _ List.mem_cons_self
        | _ => cases hu
      · refine (ih fun w hw => hitems w (List.mem_cons_of_mem v hw)).bind fun keys hkeys => ?_
        exact List.forall_mem_cons.2 ⟨hu, hkeys⟩
  unfold Unarchiver.keysForKey
  refine Ends.bind (ends_unwrap h.missing fun _ hk => hk) fun k hcurrent => ?_
  refine Ends.bind (ends_unwrap h.index fun _ hitem => hitem) fun item hitem => ?_
  refine Ends.bind (ends_unwrap h.missing fun _ hdict => hdict) fun dict hdict => ?_
  refine Ends.bind (ends_unwrap h.missing fun _ hitems => hitems) fun items hitems => ?_
  refine hmapM fun u hu => ?_
  obtain ⟨v, hv, harray⟩ := Option.bind_eq_some_iff.1 hitems
  have hvalue : s₀.valueForKey key = .ok (some v) := by
    unfold Unarchiver.valueForKey Unarchiver.scope
    rw [hcurrent]
    simp only
    rw [hitem, unwrap, ok_bind, hdict, Option.bind_some, hv, pure_eq_ok]
  cases v with
  | array items' =>
    cases harray
    exact h.scope hvalue (.inr ⟨_, rfl, hu⟩)
  | _ => cases harray

theorem unarchiveAll (h : Serves unarchive F Rel R s₀) {keys : List ℕ} (hkeys : ∀ k ∈ keys, R k) :
    Ends F (fun r => Rel s₀ r.2) (unarchiveAll unarchive keys s₀) := by
  induction keys generalizing s₀ with
  | nil => exact h.refl s₀
  | cons key keys ih =>
    refine (h.unarchive s₀ key (h.refl s₀) (hkeys key List.mem_cons_self)).bind fun r hr => ?_
    refine (ih (h.of_same hr) fun k hk => hkeys k (List.mem_cons_of_mem key hk)).bind fun r' hr' => ?_
    exact h.trans hr hr'

theorem decodeObjectForKey (h : Serves unarchive F Rel R s₀) (key : String) :
    Ends F (fun r => Rel s₀ r.2) (s₀.decodeObjectForKey unarchive key) := by
  refine (h.valueForKey key).bind fun v hv => ?_
  cases hu : v.bind Value.asUid with
  | none => exact h.refl s₀
  | some u => exact h.unarchive s₀ u (h.refl s₀) (hv u hu)

theorem decodeCurrentArray (h : Serves unarchive F Rel R s₀) :
    Ends F (fun r => Rel s₀ r.2) (s₀.decodeCurrentArray unarchive) :=
  (h.keysForKey "NS.objects").bind fun _ hkeys => h.unarchiveAll hkeys

theorem decodeCurrentDict (h : Serves unarchive F Rel R s₀) :
    Ends F (fun r => Rel s₀ r.2) (s₀.decodeCurrentDict unarchive) := by
  refine (h.keysForKey "NS.keys").bind fun keys hkeys => ?_
  refine (h.keysForKey "NS.objects").bind fun vals hvals => ?_
  refine (h.unarchiveAll hkeys).bind fun r hr => ?_
  refine ((h.of_same hr).unarchiveAll hvals).bind fun r' hr' => ?_
  exact h.trans hr hr'

/-- **A method** -/
theorem runCoder (h : Serves unarchive F Rel R s₀) (coder : Coder) :
    Ends F (fun r => Rel s₀ r.2) (runCoder unarchive coder s₀) := by
  induction coder generalizing s₀ with
  | done object => exact h.refl s₀
  | decodeObject key next ih =>
    exact (h.decodeObjectForKey key).bind fun r hr => (ih r.1 (h.of_same hr)).mono fun _ hr' => h.trans hr hr'
  | decodeArray next ih =>
    exact h.decodeCurrentArray.bind fun r hr => (ih r.1 (h.of_same hr)).mono fun _ hr' => h.trans hr hr'
  | decodeDict next ih =>
    exact h.decodeCurrentDict.bind fun r hr => (ih r.1 (h.of_same hr)).mono fun _ hr' => h.trans hr hr'
  | decodeValue key next ih => exact (h.valueForKey key).bind fun v _ => ih v h
  | create o next ih =>
    have hs := h.create s₀ o
    exact (ih (s₀.create o).1 (h.of_same hs)).mono fun _ hr' => h.trans hs hr'

end Serves

/-! ## Questions in their order -/

section

variable {α β : Type} {qs : List (Unarchiver × ℕ)} {x : Except Panic (α × Unarchiver)}

theorem Answered.nil (s : Unarchiver) (x : Except Panic (α × Unarchiver)) : Answered unarchive Rel R [] s x :=
  ⟨fun _ hq => (nomatch hq), .nil, fun _ _ _ _ hq => (nomatch hq)⟩

/-- questions, and then more of them -/
theorem Answered.bind (h : Serves unarchive F Rel R s₀) (hx : Answered unarchive Rel R qs s x)
    (hrel : ∀ p, x = .ok p → Rel s p.2) {f : α × Unarchiver → Except Panic (β × Unarchiver)}
    {more : α → Unarchiver → List (Unarchiver × ℕ)} (hf : ∀ p, x = .ok p → Answered unarchive Rel R (more p.1 p.2) p.2 (f p))
    (hlast : ∀ p, x = .ok p → ∀ r, f p = .ok r → Rel p.2 r.2) :
    Answered unarchive Rel R (qs ++ following more x) s (x >>= f) := by
  cases x with
  | error e =>
    unfold following
    rw [List.append_nil]
    exact ⟨hx.asked, hx.chain, fun _ _ hb => (nomatch hb)⟩
  | ok p =>
    have hp := hrel p rfl
    have hmore := hf p rfl
    refine ⟨?_, ?_, ?_⟩
    · intro q hq
      rcases List.mem_append.1 hq with hq | hq
      · exact hx.asked q hq
      · exact (hmore.asked q hq).imp_left (h.trans hp)
    · refine List.pairwise_append.2 ⟨hx.chain, hmore.chain, fun q hq q' hq' => ?_⟩
      obtain ⟨o, t, hans, ht⟩ := hx.answers p.1 p.2 rfl q hq
      exact ⟨o, t, hans, h.trans ht (hmore.asked q' hq').1⟩
    · intro b t hb q hq
      rcases List.mem_append.1 hq with hq | hq
      · obtain ⟨o, t', hans, ht'⟩ := hx.answers p.1 p.2 rfl q hq
        exact ⟨o, t', hans, h.trans ht' (hlast p rfl (b, t) hb)⟩
      · exact hmore.answers b t hb q hq

theorem askedAll_one (w : ℕ) (s : Unarchiver) : askedAll unarchive [w] s = [(s, w)] := by
  unfold askedAll
  cases unarchive s w <;> rfl

/-- one question -/
theorem Serves.answered_one (h : Serves unarchive F Rel R s₀) {w : ℕ} (hw : R w) :
    Answered unarchive Rel R [(s₀, w)] s₀ (unarchive s₀ w) where
  asked q hq := by
    rw [List.mem_singleton.1 hq]
    exact ⟨h.refl s₀, hw⟩
  chain := List.pairwise_singleton _ _
  answers := by
    intro o t ht q hq
    rw [List.mem_singleton.1 hq]
    exact ⟨o, t, ht, h.refl t⟩

/-- the state goes on, and the result is another -/
theorem Answered.map (hx : Answered unarchive Rel R qs s x) (f : α → β) :
    Answered unarchive Rel R qs s (x >>= fun p => .ok (f p.1, p.2)) := by
  refine ⟨hx.asked, hx.chain, fun b t hb => ?_⟩
  obtain ⟨⟨a, t'⟩, ha, hb⟩ := bind_eq_ok.1 hb
  cases hb
  exact hx.answers a _ ha

theorem Serves.answered_all (h : Serves unarchive F Rel R s₀) {keys : List ℕ} (hkeys : ∀ k ∈ keys, R k) :
    Answered unarchive Rel R (askedAll unarchive keys s₀) s₀ (Unarchiver.unarchiveAll unarchive keys s₀) := by
  induction keys generalizing s₀ with
  | nil => exact .nil s₀ _
  | cons key keys ih =>
    have hkey := hkeys key List.mem_cons_self
    have hkeys' := fun k hk => hkeys k (List.mem_cons_of_mem key hk)
    have hone := h.unarchive s₀ key (h.refl s₀) hkey
    refine (h.answered_one hkey).bind h (fun p hp => hone.ok hp)
      (fun p hp => (ih (h.of_same (hone.ok hp)) hkeys').map (p.1 :: ·)) fun p hp r hr => ?_
    obtain ⟨r', hr', hlast⟩ := bind_eq_ok.1 hr
    have hrel := ((h.of_same (hone.ok hp)).unarchiveAll hkeys').ok hr'
    cases hlast
    exact hrel

theorem askedAll_append (keys vals : List ℕ) (s : Unarchiver) : askedAll unarchive (keys ++ vals) s =
    askedAll unarchive keys s ++
      following (fun _ s => askedAll unarchive vals s) (Unarchiver.unarchiveAll unarchive keys s) := by
  induction keys generalizing s with
  | nil => rfl
  | cons key keys ih =>
    rw [List.cons_append, askedAll, askedAll, Unarchiver.unarchiveAll, List.cons_append]
    cases hkey : unarchive s key with
    | error e => rfl
    | ok r =>
      simp only [ok_bind, following, ih]
      cases Unarchiver.unarchiveAll unarchive keys r.2 <;> rfl

/-- **The questions of a method** -/
theorem Serves.questions (h : Serves unarchive F Rel R s₀) (coder : Coder) :
    Answered unarchive Rel R (questions unarchive coder s₀) s₀ (Unarchiver.runCoder unarchive coder s₀) := by
  induction coder generalizing s₀ with
  | done object => exact .nil s₀ _
  | decodeObject key next ih =>
    have hends := h.decodeObjectForKey key
    have hfirst : Answered unarchive Rel R
        (match s₀.valueForKey key with
          | .ok value => askedAll unarchive (value.bind Value.asUid).toList s₀
          | .error _ => []) s₀ (s₀.decodeObjectForKey unarchive key) := by
      have hvalue := h.valueForKey key
      unfold Unarchiver.decodeObjectForKey
      cases hv : s₀.valueForKey key with
      | error e => exact .nil s₀ _
      | ok v =>
        rw [hv] at hvalue
        rw [ok_bind]
        simp only
        cases hu : v.bind Value.asUid with
        | none => exact .nil s₀ _
        | some u =>
          simp only [Option.toList_some, askedAll_one]
          exact h.answered_one (hvalue u hu)
    exact hfirst.bind h (fun p hp => hends.ok hp) (fun p hp => ih p.1 (h.of_same (hends.ok hp)))
      fun p hp r hr => ((h.of_same (hends.ok hp)).runCoder (next p.1)).ok hr
  | decodeArray next ih =>
    have hends := h.decodeCurrentArray
    have hfirst : Answered unarchive Rel R
        (match s₀.keysForKey "NS.objects" with
          | .ok keys => askedAll unarchive keys s₀
          | .error _ => []) s₀ (s₀.decodeCurrentArray unarchive) := by
      have hkeys := h.keysForKey "NS.objects"
      unfold Unarchiver.decodeCurrentArray
      cases hk : s₀.keysForKey "NS.objects" with
      | error e => exact .nil s₀ _
      | ok keys =>
        rw [ok_bind]
        exact h.answered_all (hkeys.ok hk)
    exact hfirst.bind h (fun p hp => hends.ok hp) (fun p hp => ih p.1 (h.of_same (hends.ok hp)))
      fun p hp r hr => ((h.of_same (hends.ok hp)).runCoder (next p.1)).ok hr
  | decodeDict next ih =>
    have hends := h.decodeCurrentDict
    have hfirst : Answered unarchive Rel R
        (match s₀.keysForKey "NS.keys", s₀.keysForKey "NS.objects" with
          | .ok keys, .ok vals => askedAll unarchive (keys ++ vals) s₀
          | _, _ => []) s₀ (s₀.decodeCurrentDict unarchive) := by
      have hkeys := h.keysForKey "NS.keys"
      have hvals := h.keysForKey "NS.objects"
      unfold Unarchiver.decodeCurrentDict
      cases hk : s₀.keysForKey "NS.keys" with
      | error e => exact .nil s₀ _
      | ok keys =>
        cases hv : s₀.keysForKey "NS.objects" with
        | error e => exact .nil s₀ _
        | ok vals =>
          rw [ok_bind, ok_bind]
          simp only
          rw [askedAll_append]
          have hall := h.unarchiveAll (hkeys.ok hk)
          refine (h.answered_all (hkeys.ok hk)).bind h (fun p hp => hall.ok hp)
            (fun p hp => ((h.of_same (hall.ok hp)).answered_all (hvals.ok hv)).map (p.1.zip ·)) fun p hp r hr => ?_
          obtain ⟨r', hr', hlast⟩ := bind_eq_ok.1 hr
          cases hlast
          exact ((h.of_same (hall.ok hp)).unarchiveAll (hvals.ok hv)).ok hr'
    exact hfirst.bind h (fun p hp => hends.ok hp) (fun p hp => ih p.1 (h.of_same (hends.ok hp)))
      fun p hp r hr => ((h.of_same (hends.ok hp)).runCoder (next p.1)).ok hr
  | decodeValue key next ih =>
    unfold Unarchiver.questions Unarchiver.runCoder
    cases hv : s₀.valueForKey key with
    | error e => exact .nil s₀ _
    | ok v =>
      rw [ok_bind]
      exact ih v h
  | create o next ih =>
    have hs := h.create s₀ o
    have hmore := ih (s₀.create o).1 (h.of_same hs)
    exact ⟨fun q hq => (hmore.asked q hq).imp_left (h.trans hs), hmore.chain, hmore.answers⟩

end

end Unarchiver

end TouchHLE
