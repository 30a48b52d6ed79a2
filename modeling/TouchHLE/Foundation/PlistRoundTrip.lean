/-
Property lists that come back as they were: the objects of `deserialize_plist` are given to `serialize_plist`.

- `Equal`: equality of values, where the order of dictionaries does not count. `All`: a property of all parts of a value.
- `IsPlist`: the values. `Storable`, `Serializable`: the parts that the two directions can deal with.
- `Represents`: the objects for a value. `deserialize_cases`, `deserialize_ok`: they are created.
- `round_trip_iff`: the result. `large_integer`: a value that does not come back.
-/
import TouchHLE.Foundation.PropertyLists

namespace TouchHLE

open Machine Buckets Rounding Words

namespace Value

theorem ind {P : Value → Prop} (array : ∀ items, (∀ v ∈ items, P v) → P (.array items))
    (dictionary : ∀ entries, (∀ e ∈ entries, P e.2) → P (.dictionary entries))
    (leaf : ∀ v, (∀ items, v ≠ .array items) → (∀ entries, v ≠ .dictionary entries) → P v) (v : Value) : P v := by
  induction hn : sizeOf v using Nat.strong_induction_on generalizing v with
  | _ n ih =>
    subst hn
    cases v with
    | array items =>
      refine array items fun v hv => ih (sizeOf v) ?_ v rfl
      have hlt := List.sizeOf_lt_of_mem hv
      simp only [Value.array.sizeOf_spec]
      omega
    | dictionary entries =>
      refine dictionary entries fun e he => ih (sizeOf e.2) ?_ e.2 rfl
      have hlt := List.sizeOf_lt_of_mem he
      obtain ⟨key, v⟩ := e
      simp only [Value.dictionary.sizeOf_spec, Prod.mk.sizeOf_spec] at hlt ⊢
      omega
    | _ => exact leaf _ nofun nofun

mutual

/-- `PartialEq` of `plist::Value` -/
def Equal : Value → Value → Prop
  | .array items, v' => ∃ items', v' = .array items' ∧ EqualItems items items'
  | .dictionary entries, v' => ∃ entries', v' = .dictionary entries' ∧ entries'.length = entries.length ∧
    EqualEntries entries entries'
  | v, v' => v' = v

def EqualItems : List Value → List Value → Prop
  | [], items' => items' = []
  | v :: items, items' => ∃ v' rest, items' = v' :: rest ∧ Equal v v' ∧ EqualItems items rest

def EqualEntries : List (String × Value) → List (String × Value) → Prop
  | [], _ => True
  | (key, v) :: entries, entries' => (∃ v', entries'.lookup key = some v' ∧ Equal v v') ∧ EqualEntries entries entries'

end

mutual

/-- a property of the value and of all values in it -/
def All (P : Value → Prop) : Value → Prop
  | .array items => P (.array items) ∧ AllItems P items
  | .dictionary entries => P (.dictionary entries) ∧ AllEntries P entries
  | v => P v

def AllItems (P : Value → Prop) : List Value → Prop
  | [] => True
  | v :: items => All P v ∧ AllItems P items

def AllEntries (P : Value → Prop) : List (String × Value) → Prop
  | [] => True
  | (_, v) :: entries => All P v ∧ AllEntries P entries

end

mutual

/-- the lengths of all data, in the order in which memory is allocated for them -/
def blobs : Value → List ℕ
  | .array items => blobsOfItems items
  | .dictionary entries => blobsOfEntries entries
  | .data d => [d.length]
  | _ => []

def blobsOfItems : List Value → List ℕ
  | [] => []
  | v :: items => blobs v ++ blobsOfItems items

def blobsOfEntries : List (String × Value) → List ℕ
  | [] => []
  | (_, v) :: entries => blobs v ++ blobsOfEntries entries

end

/-- property list values: different keys in dictionaries, integers of 64 bits with or without a sign, no UIDs -/
def plistPart : Value → Prop
  | .dictionary entries => (entries.map Prod.fst).Nodup
  | .integer int => -2 ^ 63 ≤ int ∧ int < 2 ^ 64
  | .date t => IsSystemTime t
  | .uid _ => False
  | _ => True

/-- what there can be an object for: data and dictionaries whose size is a `u32`, and dates from 2001 on -/
def storablePart : Value → Prop
  | .dictionary entries => entries.length < 2 ^ 32
  | .data d => d.length < 2 ^ 32
  | .date t => appleEpoch ≤ t
  | _ => True

/-- what the object is serialized as what it is for: integers with a sign, and dates that are not changed by rounding -/
def serializablePart : Value → Prop
  | .integer int => int < 2 ^ 63
  | .date t => fromSecsF64 (asSecsF64 (t - appleEpoch).toNat) = .ok (t - appleEpoch).toNat
  | _ => True

def IsPlist : Value → Prop := All plistPart

def Storable : Value → Prop := All storablePart

def Serializable : Value → Prop := All serializablePart

variable {P : Value → Prop} {entries entries' : List (String × Value)}

theorem allEntries_iff : AllEntries P entries ↔ ∀ e ∈ entries, e.2.All P := by
  induction entries with
  | nil => exact ⟨fun _ _ he => (nomatch he), fun _ => trivial⟩
  | cons e entries ih =>
    rw [List.forall_mem_cons, ← ih]
    rfl

theorem equalEntries_iff :
    EqualEntries entries entries' ↔ ∀ e ∈ entries, ∃ v', entries'.lookup e.1 = some v' ∧ e.2.Equal v' := by
  induction entries with
  | nil => exact ⟨fun _ _ he => (nomatch he), fun _ => trivial⟩
  | cons e entries ih =>
    rw [List.forall_mem_cons, ← ih]
    rfl

end Value

namespace Mem.Allocator

/-- allocations one after the other -/
def allocAll (sizes : List ℕ) (a : Allocator) : Except Panic Allocator :=
  sizes.foldlM (fun a size => Prod.snd <$> a.alloc size) a

theorem allocAll_append (l l' : List ℕ) (a : Allocator) : allocAll (l ++ l') a = allocAll l a >>= allocAll l' :=
  List.foldlM_append

end Mem.Allocator

namespace Heap

variable {h h' h'' : Heap} {p : ℕ} {d : List UInt8}

/-- memory that is used stays as it is -/
structure Keeps (h h' : Heap) : Prop where
  null : h'.nullSegmentSize = h.nullSegmentSize
  owned : ∀ x, h.Owned x → h'.Owned x ∧ h'.bytes x = h.bytes x

theorem Keeps.refl (h : Heap) : Keeps h h := ⟨rfl, fun _ hx => ⟨hx, rfl⟩⟩

theorem Keeps.trans (hk : Keeps h h') (hk' : Keeps h' h'') : Keeps h h'' := by
  refine ⟨hk'.null.trans hk.null, fun x hx => ?_⟩
  obtain ⟨hx', hbyte⟩ := hk.owned x hx
  obtain ⟨hx'', hbyte'⟩ := hk'.owned x hx'
  exact ⟨hx'', hbyte'.trans hbyte⟩

/-- memory in which the null pages are reserved -/
structure Ready (h : Heap) : Prop where
  sound : h.Sound
  reserved : ∀ x < h.nullSegmentSize, h.Owned x

/-- bytes in used memory -/
structure Stored (h : Heap) (p : ℕ) (d : List UInt8) : Prop where
  owned : ∀ i < d.length, h.Owned (p + i)
  bytes : load h.bytes p d.length = d
  range : h.toMem.InRange p d.length

theorem Stored.keeps (hs : Stored h p d) (hk : Keeps h h') : Stored h' p d := by
  refine ⟨fun i hi => (hk.owned _ (hs.owned i hi)).1, ?_, hk.null.trans_le hs.range.1, hs.range.2⟩
  calc load h'.bytes p d.length = load h.bytes p d.length := by
        refine load_congr fun x hlow hhigh => ?_
        obtain ⟨i, rfl⟩ := Nat.exists_eq_add_of_le hlow
        exact (hk.owned _ (hs.owned i (by omega))).2
    _ = d := hs.bytes

theorem Stored.read (hs : Stored h p d) : h.toMem.readBytes p d.length = .ok d := by
  rw [Mem.readBytes, Mem.checkRange_ok hs.range, ok_bind, pure_eq_ok, hs.bytes]

/-- memory for the bytes, and the bytes in it -/
theorem Ready.stored (hr : h.Ready) (hlt : d.length < 2 ^ 32) {a : Mem.Allocator}
    (ha : h.allocator.alloc d.length = .ok (p, a)) :
    ∃ h', (∃ h₁ m, h.alloc d.length = .ok (p, h₁) ∧ h₁.toMem.writeBytes p d = .ok m ∧ h' = { h₁ with toMem := m }) ∧
      h'.allocator = a ∧ Keeps h h' ∧ h'.Ready ∧ Stored h' p d := by
  obtain ⟨c, hbase, hsize, hinv, hperm, hapart⟩ := Mem.Allocator.allocated hr.sound.inv hlt ha
  have hc : c ∈ a.usedChunks.chunks := hperm.mem_iff.2 List.mem_cons_self
  have hkeep : ∀ e ∈ h.allocator.usedChunks.chunks, e ∈ a.usedChunks.chunks := fun e he =>
    hperm.mem_iff.2 (List.mem_cons_of_mem _ he)
  have hlen : d.length ≤ c.size := (le_max_left _ _).trans hsize
  have hin : c.base + c.size ≤ 2 ^ 32 := hinv.tiles.inside _ (Mem.Allocator.mem_span (Mem.Allocator.Inv.mem_used hc))
  have hnew : ∀ x, h.Owned x → ¬c.span.Has x := fun x ⟨e, he, hx⟩ hcx => hapart x hcx e he hx
  have halloc : h.alloc d.length = .ok (p, { h with allocator := a }) := by
    rw [Heap.alloc, ha]
    simp only [ok_bind, hr.sound.zeroing, Bool.not_true, Bool.false_eq_true, if_false, pure_eq_ok]
  have hpos : 0 < c.size := lt_of_lt_of_le (by decide) ((le_max_right _ _).trans hsize)
  have hrange : h.toMem.InRange p d.length := by
    subst hbase
    refine ⟨Nat.le_of_not_lt fun hnull => ?_, (Nat.add_le_add_left hlen _).trans hin⟩
    exact hnew _ (hr.reserved _ hnull) ⟨le_refl _, Nat.lt_add_of_pos_right hpos⟩
  have hwrite : h.toMem.writeBytes p d = .ok { h.toMem with bytes := store h.bytes p d } := by
    rw [Mem.writeBytes, Mem.checkRange_ok hrange, ok_bind, pure_eq_ok]
  have howned : ∀ i < d.length, Heap.Owned { h with allocator := a } (p + i) := by
    subst hbase
    exact fun i hi => ⟨c, hc, Nat.le_add_right _ _, Nat.add_lt_add_left (hi.trans_le hlen) _⟩
  have hsound : Heap.Sound { h with allocator := a } := by
    refine ⟨hinv, hr.sound.zeroing, fun x hx hno => hr.sound.clean x hx ?_⟩
    rintro ⟨e, he, hex⟩
    exact hno ⟨e, hkeep e he, hex⟩
  have hkeeps : Keeps h { h with allocator := a, bytes := store h.bytes p d } := by
    refine ⟨rfl, fun x hx => ?_⟩
    obtain ⟨e, he, hex⟩ := id hx
    refine ⟨⟨e, hkeep e he, hex⟩, store_outside ?_⟩
    by_contra hcon
    push Not at hcon
    subst hbase
    exact hnew x hx ⟨hcon.1, lt_of_lt_of_le hcon.2 (Nat.add_le_add_left hlen _)⟩
  refine ⟨{ h with allocator := a, bytes := store h.bytes p d }, ⟨_, _, halloc, hwrite, rfl⟩, rfl, hkeeps, ?_, ?_⟩
  · exact ⟨hsound.store howned, fun x hx => (hkeeps.owned x (hr.reserved x hx)).1⟩
  · exact ⟨howned, load_store, hrange⟩

end Heap

/-! ## Objects for a value -/

namespace Graph

variable {s s' s'' : Graph} {id object : ℕ}

/-- there are more objects, and memory that is used stays as it is -/
structure Extends (s s' : Graph) : Prop where
  objects : s.objects <+: s'.objects
  heap : s.heap.Keeps s'.heap

theorem Extends.refl (s : Graph) : Extends s s := ⟨List.prefix_refl _, .refl _⟩

theorem Extends.trans (h : Extends s s') (h' : Extends s' s'') : Extends s s'' :=
  ⟨h.objects.trans h'.objects, h.heap.trans h'.heap⟩

theorem Extends.create (s : Graph) (o : PlistObject) : Extends s (s.create o).2 := ⟨List.prefix_append _ _, .refl _⟩

theorem hostObject_le {o : PlistObject} (h : s.hostObject object = some o) : object ≤ s.objects.length := by
  cases object with
  | zero => exact Nat.zero_le _
  | succ n =>
    obtain ⟨hlt, -⟩ := List.getElem?_eq_some_iff.1 h
    exact hlt

theorem Extends.hostObject (h : Extends s s') (hle : object ≤ s.objects.length) :
    s'.hostObject object = s.hostObject object := by
  cases object with
  | zero => rfl
  | succ n =>
    obtain ⟨more, hmore⟩ := h.objects
    change s'.objects[n]? = s.objects[n]?
    rw [← hmore, List.getElem?_append_left hle]

theorem create_hostObject (s : Graph) (o : PlistObject) : (s.create o).2.hostObject (s.create o).1 = some o :=
  List.getElem?_concat_length

theorem takeArray_hostObject (h : object < id) : (s.takeArray id).hostObject object = s.hostObject object := by
  cases object with
  | zero => rfl
  | succ n =>
    unfold takeArray Graph.hostObject
    exact List.getElem?_set_ne (by omega)

end Graph

/-- the objects that a dictionary has a pair of -/
def Holds (d : DictionaryHostObject) (l : List (ℕ × ℕ)) : Prop := (pairs d.map).Perm l

mutual

/-- the object stands for the value, and was created after what it holds -/
def Represents (s : Graph) : Value → ℕ → Prop
  | .array items, object => ∃ array, s.hostObject object = some (.array array) ∧ RepresentsItems s object items array
  | .dictionary entries, object => ∃ d l, s.hostObject object = some (.dictionary d) ∧ Holds d l ∧
    RepresentsEntries s object entries l
  | .boolean b, object => s.hostObject object = some (.number (.bool b))
  | .data d, object => ∃ p, s.hostObject object = some (.data p d.length) ∧ s.heap.Stored p d
  | .date t, object => s.hostObject object = some (.date (asSecsF64 (t - appleEpoch).toNat))
  | .real bits, object => s.hostObject object = some (.number (.double bits))
  | .integer int, object => s.hostObject object = some (.number (numberFor int))
  | .string text, object => s.hostObject object = some (.string text)
  | .uid _, _ => False

def RepresentsItems (s : Graph) (bound : ℕ) : List Value → List ℕ → Prop
  | [], array => array = []
  | v :: items, array => ∃ object rest, array = object :: rest ∧ object < bound ∧ Represents s v object ∧
    RepresentsItems s bound items rest

def RepresentsEntries (s : Graph) (bound : ℕ) : List (String × Value) → List (ℕ × ℕ) → Prop
  | [], l => l = []
  | (key, v) :: entries, l => ∃ keyObject object rest, l = (keyObject, object) :: rest ∧
    s.hostObject keyObject = some (.string key) ∧ keyObject < bound ∧ object < bound ∧ Represents s v object ∧
    RepresentsEntries s bound entries rest

end

section

variable {s s' : Graph} {v : Value}

/-- only the objects up to the one for the value count -/
theorem Represents.frame (hheap : s.heap.Keeps s'.heap) : ∀ {object : ℕ}, Represents s v object →
    (∀ j ≤ object, s'.hostObject j = s.hostObject j) → Represents s' v object := by
  induction v using Value.ind with
  | array items ih =>
    rintro object ⟨array, hobject, hitems⟩ hsame
    refine ⟨array, (hsame object le_rfl).trans hobject, ?_⟩
    clear hobject
    induction items generalizing array with
    | nil => exact hitems
    | cons v items ihl =>
      obtain ⟨o, rest, rfl, hlt, hv, hrest⟩ := hitems
      refine ⟨o, rest, rfl, hlt, ih v List.mem_cons_self hv fun j hj => hsame j (hj.trans hlt.le), ?_⟩
      exact ihl (fun w hw => ih w (List.mem_cons_of_mem v hw)) rest hrest
  | dictionary entries ih =>
    rintro object ⟨d, l, hobject, hholds, hentries⟩ hsame
    refine ⟨d, l, (hsame object le_rfl).trans hobject, hholds, ?_⟩
    clear hobject hholds
    induction entries generalizing l with
    | nil => exact hentries
    | cons e entries ihl =>
      obtain ⟨key, v⟩ := e
      obtain ⟨ko, o, rest, rfl, hkey, hklt, hlt, hv, hrest⟩ := hentries
      refine ⟨ko, o, rest, rfl, (hsame ko hklt.le).trans hkey, hklt, hlt,
        ih (key, v) List.mem_cons_self hv fun j hj => hsame j (hj.trans hlt.le), ?_⟩
      exact ihl (fun w hw => ih w (List.mem_cons_of_mem _ hw)) rest hrest
  | leaf v harray hdict =>
    intro object hv hsame
    cases v with
    | array items => exact absurd rfl (harray items)
    | dictionary entries => exact absurd rfl (hdict entries)
    | data d =>
      obtain ⟨p, hobject, hstored⟩ := hv
      exact ⟨p, (hsame object le_rfl).trans hobject, hstored.keeps hheap⟩
    | uid u => exact hv
    | _ => exact (hsame object le_rfl).trans hv

theorem Represents.le {object : ℕ} (h : Represents s v object) : object ≤ s.objects.length := by
  cases v with
  | array items =>
    obtain ⟨array, hobject, -⟩ := h
    exact Graph.hostObject_le hobject
  | dictionary entries =>
    obtain ⟨d, l, hobject, -⟩ := h
    exact Graph.hostObject_le hobject
  | data d =>
    obtain ⟨p, hobject, -⟩ := h
    exact Graph.hostObject_le hobject
  | uid u => exact h.elim
  | _ => exact Graph.hostObject_le h

theorem Represents.extends {object : ℕ} (h : Represents s v object) (hs : s.Extends s') :
    Represents s' v object := h.frame hs.heap fun _ hj => hs.hostObject (hj.trans h.le)

theorem Represents.takeArray {object id : ℕ} (h : Represents s v object) (hlt : object < id) :
    Represents (s.takeArray id) v object := by
  have hheap : s.heap.Keeps (s.takeArray id).heap := .refl s.heap
  exact h.frame hheap fun _ hj => Graph.takeArray_hostObject (hj.trans_lt hlt)

end

/-! ## Dictionaries of different keys -/

section

variable {m : KeyMessages} {d : DictionaryHostObject} {l : List (ℕ × ℕ)}

/-- a table, and pairs for it with other keys -/
structure Fresh (m : KeyMessages) (d : DictionaryHostObject) (l : List (ℕ × ℕ)) : Prop where
  table : WellFormed m.hash m.same d.map
  count : d.count = (pairs d.map).length
  distinct : Distinct m.same l
  apart : ∀ e ∈ pairs d.map, ∀ e' ∈ l, m.same e.1 e'.1 = false

/-- the pairs are added if they are not too many -/
theorem Fresh.insertAll (hc : Consistent m.hash m.same) (hcopy : ∀ n k, m.copy n k = k) (h : Fresh m d l) (r : References) :
    (d.count + l.length < 2 ^ 32 → ∃ d' r', l.foldlM (fun d e => d.1.insert m d.2 e.1 e.2 true) (d, r) = .ok (d', r') ∧
        (pairs d'.map).Perm (l ++ pairs d.map)) ∧
      (¬d.count + l.length < 2 ^ 32 → 0 < l.length → l.foldlM (fun d e => d.1.insert m d.2 e.1 e.2 true) (d, r) =
        .error .overflow) := by
  induction l generalizing d r with
  | nil => exact ⟨fun _ => ⟨d, r, rfl, List.Perm.refl _⟩, fun _ hpos => absurd hpos (Nat.lt_irrefl 0)⟩
  | cons e l ih =>
    have hown : r.own m e.1 true = (e.1, (r.copy m e.1).2) := by
      change ((r.copy m e.1).1, (r.copy m e.1).2) = _
      rw [References.copy]
      simp only [hcopy]
    have hnew : position m.same e.1 (bucket d.map (m.hash e.1)) = none := by
      rw [Buckets.position_eq_none]
      exact fun a ha => h.apart a (mem_pairs_of_bucket h.table.nodup ha) e List.mem_cons_self
    obtain ⟨hdistinct, hrest⟩ := List.pairwise_cons.1 h.distinct
    rw [List.foldlM_cons]
    by_cases hroom : d.count + 1 < 2 ^ 32
    · obtain ⟨htable, -, hperm⟩ := h.table.add (v := e.2) hc rfl hnew
      rw [DictionaryState.insert_absent hown hnew hroom, ok_bind]
      have hfresh : Fresh m
          ⟨Assoc.insert (m.hash e.1) (bucket d.map (m.hash e.1) ++ [(e.1, e.2)]) d.map, d.count + 1⟩ l := by
        refine ⟨htable, ?_, hrest, fun a ha e' he' => ?_⟩
        · rw [hperm.length_eq, List.length_cons, ← h.count]
        · rcases List.mem_cons.1 (hperm.mem_iff.1 ha) with rfl | ha
          · exact hdistinct e'.1 (List.mem_map_of_mem he')
          · exact h.apart a ha e' (List.mem_cons_of_mem e he')
      obtain ⟨hok, hfull⟩ := ih hfresh ((r.copy m e.1).2.retain e.2)
      rw [List.length_cons]
      refine ⟨fun hlt => ?_, fun hge _ => hfull (by dsimp only; omega) (by omega)⟩
      obtain ⟨d', r', hfold, hpairs⟩ := hok (by dsimp only; omega)
      refine ⟨d', r', hfold, hpairs.trans ?_⟩
      exact (hperm.append_left l).trans List.perm_middle
    · rw [DictionaryState.insert_full hown hnew hroom, error_bind, List.length_cons]
      exact ⟨fun hlt => absurd hlt (by omega), fun _ _ => rfl⟩

end

/-- the answers of strings fit together -/
theorem Graph.consistent (host : PlistHost) (s : Graph) : Consistent (s.messages host).hash (s.messages host).same where
  refl a := by simp [KeyMessages.same]
  symm a b h := by
    simp only [KeyMessages.same, Graph.messages, Bool.or_eq_true, beq_iff_eq, Bool.and_eq_true] at h ⊢
    rcases h with rfl | ⟨hsome, heq⟩
    · exact .inl rfl
    · exact .inr ⟨heq ▸ hsome, heq.symm⟩
  trans a b c h h' := by
    simp only [KeyMessages.same, Graph.messages, Bool.or_eq_true, beq_iff_eq, Bool.and_eq_true] at h h' ⊢
    rcases h with rfl | ⟨hsome, heq⟩
    · exact h'
    · rcases h' with rfl | ⟨-, heq'⟩
      · exact .inr ⟨hsome, heq⟩
      · exact .inr ⟨hsome, heq.trans heq'⟩
  hash a b h := by
    simp only [KeyMessages.same, Graph.messages, Bool.or_eq_true, beq_iff_eq, Bool.and_eq_true] at h ⊢
    rcases h with rfl | ⟨-, heq⟩
    · rfl
    · rw [heq]

/-- objects with different texts -/
theorem Graph.same_eq_false (host : PlistHost) {s : Graph} {a b : ℕ} {t t' : String} (ha : s.text a = some t)
    (hb : s.text b = some t') (hne : t ≠ t') : (s.messages host).same a b = false := by
  have hab : a ≠ b := by
    rintro rfl
    rw [ha] at hb
    exact hne (Option.some.inj hb)
  simp [KeyMessages.same, Graph.messages, hab, ha, hb, hne]

/-- a dictionary is made from pairs with different texts exactly if they are not too many -/
theorem dictFromKeysAndObjects_spec (host : PlistHost) {s : Graph} {l : List (ℕ × ℕ)} {texts : List String}
    (htexts : l.map (fun e => s.text e.1) = texts.map some) (hnodup : texts.Nodup) :
    (l.length < 2 ^ 32 → ∃ d, dictFromKeysAndObjects host s l = .ok d ∧ Holds d l) ∧
      (¬l.length < 2 ^ 32 → dictFromKeysAndObjects host s l = .error .overflow) := by
  have hdistinct : Distinct (s.messages host).same l := by
    unfold Distinct
    rw [List.pairwise_map]
    have hpair : (l.map fun e => s.text e.1).Nodup := htexts ▸ hnodup.map (Option.some_injective _)
    have hpair' := List.pairwise_map.1 hpair
    refine hpair'.imp_of_mem fun {e e'} he he' hne => ?_
    have hsome : ∀ e ∈ l, ∃ t, s.text e.1 = some t := by
      intro e he
      have hmem : s.text e.1 ∈ texts.map some := htexts ▸ List.mem_map_of_mem he
      obtain ⟨t, -, ht⟩ := List.mem_map.1 hmem
      exact ⟨t, ht.symm⟩
    obtain ⟨t, ht⟩ := hsome e he
    obtain ⟨t', ht'⟩ := hsome e' he'
    exact Graph.same_eq_false host ht ht' fun heq => hne (by rw [ht, ht', heq])
  have hfresh : Fresh (s.messages host) ⟨[], 0⟩ l := ⟨wellFormed_nil, rfl, hdistinct, fun _ he => nomatch he⟩
  obtain ⟨hok, hfull⟩ := hfresh.insertAll (s.consistent host) (fun _ _ => rfl) ⟨0, [], []⟩
  simp only [Nat.zero_add] at hok hfull
  constructor
  · intro hlt
    obtain ⟨d, r, hfold, hperm⟩ := hok hlt
    refine ⟨d, ?_, hperm.trans (List.Perm.of_eq (List.append_nil l))⟩
    rw [dictFromKeysAndObjects, hfold]
    rfl
  · intro hge
    rw [dictFromKeysAndObjects, hfull hge (Nat.pos_of_ne_zero fun h0 => hge (by rw [h0]; decide))]
    rfl

/-! ## Objects are created -/

section

variable {host : PlistHost} {s s' : Graph} {object bound : ℕ} {f : ℕ → Except Panic Value} {array : List ℕ}

theorem RepresentsItems.extends {items : List Value} (h : RepresentsItems s bound items array)
    (hs : s.Extends s') : RepresentsItems s' bound items array := by
  induction items generalizing array with
  | nil => exact h
  | cons v items ih =>
    obtain ⟨o, rest, rfl, hlt, hv, hrest⟩ := h
    exact ⟨o, rest, rfl, hlt, hv.extends hs, ih hrest⟩

theorem RepresentsEntries.extends {entries : List (String × Value)} {l : List (ℕ × ℕ)}
    (h : RepresentsEntries s bound entries l) (hs : s.Extends s') : RepresentsEntries s' bound entries l := by
  induction entries generalizing l with
  | nil => exact h
  | cons e entries ih =>
    obtain ⟨ko, o, rest, rfl, hkey, hklt, hlt, hv, hrest⟩ := h
    refine ⟨ko, o, rest, rfl, ?_, hklt, hlt, hv.extends hs, ih hrest⟩
    rw [hs.hostObject (Graph.hostObject_le hkey), hkey]

/-- the texts of the keys -/
theorem RepresentsEntries.texts {entries : List (String × Value)} {l : List (ℕ × ℕ)}
    (h : RepresentsEntries s bound entries l) :
    l.map (fun e => s.text e.1) = (entries.map Prod.fst).map some ∧ l.length = entries.length := by
  induction entries generalizing l with
  | nil =>
    cases h
    exact ⟨rfl, rfl⟩
  | cons e entries ih =>
    obtain ⟨ko, o, rest, rfl, hkey, -, -, -, hrest⟩ := h
    obtain ⟨htexts, hlength⟩ := ih hrest
    have htext : s.text ko = some e.1 := by rw [Graph.text, hkey]
    refine ⟨?_, congrArg (· + 1) hlength⟩
    rw [List.map_cons, htext, htexts]
    rfl

/-- the pair of an entry -/
theorem RepresentsEntries.mem {entries : List (String × Value)} {l : List (ℕ × ℕ)} (h : RepresentsEntries s bound entries l)
    {e : String × Value} (he : e ∈ entries) : ∃ p ∈ l, s.text p.1 = some e.1 ∧ Represents s e.2 p.2 := by
  induction entries generalizing l with
  | nil => cases he
  | cons e' entries ih =>
    obtain ⟨ko, o, rest, rfl, hkey, -, -, hv, hrest⟩ := h
    rcases List.mem_cons.1 he with rfl | he
    · refine ⟨(ko, o), List.mem_cons_self, ?_, hv⟩
      rw [Graph.text, hkey]
    · obtain ⟨p, hp, hpair⟩ := ih hrest he
      exact ⟨p, List.mem_cons_of_mem _ hp, hpair⟩

/-- the objects for a value have been created -/
structure Created (s s' : Graph) (v : Value) : Prop where
  storable : v.Storable
  room : Mem.Allocator.allocAll v.blobs s.heap.allocator = .ok s'.heap.allocator
  extend : s.Extends s'
  ready : s'.heap.Ready

/-- without data -/
theorem Created.of_create {v : Value} (hv : v.Storable) (hblobs : v.blobs = []) (hready : s.heap.Ready) (o : PlistObject) :
    Created s (s.create o).2 v := by
  refine ⟨hv, ?_, .create s o, hready⟩
  rw [hblobs]
  rfl

theorem createData_cases {d : List UInt8} (hready : s.heap.Ready) (h : s.createData d = .ok (object, s')) :
    Created s s' (.data d) ∧ Represents s' (.data d) object := by
  obtain ⟨n, hlength, hrest⟩ := bind_eq_ok.1 h
  unfold toNSUInteger at hlength
  split_ifs at hlength with hlt
  cases hlength
  obtain ⟨⟨p, h₁⟩, halloc, hrest⟩ := bind_eq_ok.1 hrest
  obtain ⟨m, hwrite, hlast⟩ := bind_eq_ok.1 hrest
  obtain ⟨⟨q, a⟩, ha, -⟩ := bind_eq_ok.1 halloc
  obtain ⟨h', ⟨h₁', m', halloc', hwrite', rfl⟩, hall, hkeeps, hready', hstored⟩ := hready.stored hlt ha
  rw [halloc] at halloc'
  cases halloc'
  rw [hwrite] at hwrite'
  cases hwrite'
  cases hlast
  refine ⟨⟨hlt, ?_, ⟨List.prefix_append _ _, hkeeps⟩, hready'⟩, p, Graph.create_hostObject _ _, hstored⟩
  change Mem.Allocator.allocAll [d.length] _ = .ok h₁.allocator
  rw [Mem.Allocator.allocAll, List.foldlM_cons, ha, hall]
  rfl

/-- what is created stands for the value -/
def Faithful (host : PlistHost) (v : Value) : Prop := ∀ {s s' : Graph} {object : ℕ}, v.IsPlist → s.heap.Ready →
  deserializePlist host v s = .ok (object, s') → Created s s' v ∧ Represents s' v object

theorem Faithful.items {items : List Value} (h : ∀ v ∈ items, Faithful host v)
    (hplist : Value.AllItems Value.plistPart items) (hready : s.heap.Ready)
    (hok : deserializeItems host items s = .ok (array, s')) :
    Created s s' (.array items) ∧ RepresentsItems s' (s'.objects.length + 1) items array := by
  induction items generalizing s array with
  | nil =>
    cases hok
    exact ⟨⟨⟨trivial, trivial⟩, rfl, .refl _, hready⟩, rfl⟩
  | cons v items ih =>
    obtain ⟨⟨o, s₁⟩, hfirst, hrest⟩ := bind_eq_ok.1 hok
    obtain ⟨⟨rest, s₂⟩, hsecond, hlast⟩ := bind_eq_ok.1 hrest
    cases hlast
    obtain ⟨hcreated, hrep⟩ := h v List.mem_cons_self hplist.1 hready hfirst
    obtain ⟨hcreated', hrep'⟩ := ih (fun w hw => h w (List.mem_cons_of_mem v hw)) hplist.2 hcreated.ready hsecond
    refine ⟨⟨⟨trivial, hcreated.storable, hcreated'.storable.2⟩, ?_, hcreated.extend.trans hcreated'.extend,
      hcreated'.ready⟩, o, rest, rfl, ?_, hrep.extends hcreated'.extend, hrep'⟩
    · change Mem.Allocator.allocAll (v.blobs ++ Value.blobsOfItems items) _ = _
      rw [Mem.Allocator.allocAll_append, hcreated.room]
      exact hcreated'.room
    · exact Nat.lt_succ_of_le (hrep.extends hcreated'.extend).le

theorem Faithful.entries {entries : List (String × Value)} (h : ∀ e ∈ entries, Faithful host e.2) {l : List (ℕ × ℕ)}
    (hplist : Value.AllEntries Value.plistPart entries) (hready : s.heap.Ready)
    (hok : deserializeEntries host entries s = .ok (l, s')) : Value.AllEntries Value.storablePart entries ∧
      Mem.Allocator.allocAll (Value.blobsOfEntries entries) s.heap.allocator = .ok s'.heap.allocator ∧ s.Extends s' ∧
      s'.heap.Ready ∧ RepresentsEntries s' (s'.objects.length + 1) entries l := by
  induction entries generalizing s l with
  | nil =>
    cases hok
    exact ⟨trivial, rfl, .refl _, hready, rfl⟩
  | cons e entries ih =>
    obtain ⟨key, v⟩ := e
    have hkey := Graph.Extends.create s (.string key)
    have hready₁ : (s.create (.string key)).2.heap.Ready := hready
    obtain ⟨⟨o, s₁⟩, hfirst, hrest⟩ := bind_eq_ok.1 hok
    obtain ⟨⟨rest, s₂⟩, hsecond, hlast⟩ := bind_eq_ok.1 hrest
    cases hlast
    obtain ⟨hcreated, hrep⟩ := h (key, v) List.mem_cons_self hplist.1 hready₁ hfirst
    obtain ⟨hall, hroom, hextend, hready', hrep'⟩ :=
      ih (fun w hw => h w (List.mem_cons_of_mem _ hw)) hplist.2 hcreated.ready hsecond
    have hlater := hcreated.extend.trans hextend
    have hkeyObject : s'.hostObject (s.objects.length + 1) = some (.string key) := by
      rw [hlater.hostObject (by simp [Graph.create])]
      exact Graph.create_hostObject s (.string key)
    refine ⟨⟨hcreated.storable, hall⟩, ?_, hkey.trans hlater, hready', s.objects.length + 1, o, rest, rfl, hkeyObject,
      Nat.lt_succ_of_le (Graph.hostObject_le hkeyObject), Nat.lt_succ_of_le (hrep.extends hextend).le,
      hrep.extends hextend, hrep'⟩
    change Mem.Allocator.allocAll (v.blobs ++ Value.blobsOfEntries entries) _ = _
    rw [Mem.Allocator.allocAll_append]
    exact bind_eq_ok.2 ⟨_, hcreated.room, hroom⟩

/-- **What is created** stands for the value. -/
theorem deserialize_cases (v : Value) : Faithful host v := by
  induction v using Value.ind with
  | array items ih =>
    intro s s' object hplist hready h
    obtain ⟨⟨array, s₁⟩, hall, hlast⟩ := bind_eq_ok.1 h
    cases hlast
    obtain ⟨hcreated, hrep⟩ := Faithful.items ih hplist.2 hready hall
    have hcreate := Graph.Extends.create s₁ (.array array)
    exact ⟨⟨hcreated.storable, hcreated.room, hcreated.extend.trans hcreate, hcreated.ready⟩, array,
      Graph.create_hostObject _ _, hrep.extends hcreate⟩
  | dictionary entries ih =>
    intro s s' object hplist hready h
    obtain ⟨⟨l, s₁⟩, hall, hrest⟩ := bind_eq_ok.1 h
    obtain ⟨d, hdict, hlast⟩ := bind_eq_ok.1 hrest
    cases hlast
    obtain ⟨hstorable, hroom, hextend, hready', hrep⟩ := Faithful.entries ih hplist.2 hready hall
    obtain ⟨htexts, hlength⟩ := hrep.texts
    obtain ⟨hok, hfull⟩ := dictFromKeysAndObjects_spec host htexts hplist.1
    have hlt : l.length < 2 ^ 32 := by
      by_contra hge
      rw [hfull hge] at hdict
      cases hdict
    obtain ⟨d', hdict', hholds⟩ := hok hlt
    rw [hdict] at hdict'
    cases hdict'
    have hcreate := Graph.Extends.create s₁ (.dictionary d)
    have hcount : entries.length < 2 ^ 32 := hlength ▸ hlt
    exact ⟨⟨⟨hcount, hstorable⟩, hroom, hextend.trans hcreate, hready'⟩, d, l,
      Graph.create_hostObject _ _, hholds, hrep.extends hcreate⟩
  | leaf v harray hdict =>
    intro s s' object hplist hready h
    cases v with
    | array items => exact absurd rfl (harray items)
    | dictionary entries => exact absurd rfl (hdict entries)
    | data d => exact createData_cases hready h
    | uid u => exact hplist.elim
    | date t =>
      obtain ⟨nanos, hnanos, hlast⟩ := bind_eq_ok.1 h
      cases hlast
      unfold durationSince at hnanos
      split_ifs at hnanos with hle
      cases hnanos
      exact ⟨.of_create (v := .date t) hle rfl hready _, Graph.create_hostObject _ _⟩
    | boolean b =>
      cases h
      exact ⟨.of_create (v := .boolean b) trivial rfl hready _, Graph.create_hostObject _ _⟩
    | real bits =>
      cases h
      exact ⟨.of_create (v := .real bits) trivial rfl hready _, Graph.create_hostObject _ _⟩
    | integer int =>
      cases h
      exact ⟨.of_create (v := .integer int) trivial rfl hready _, Graph.create_hostObject _ _⟩
    | string text =>
      cases h
      exact ⟨.of_create (v := .string text) trivial rfl hready _, Graph.create_hostObject _ _⟩

/-- **Objects are created** for what is storable, if there is memory for the data. -/
theorem deserialize_ok (v : Value) : ∀ {s : Graph} {a : Mem.Allocator}, v.IsPlist → s.heap.Ready → v.Storable →
    Mem.Allocator.allocAll v.blobs s.heap.allocator = .ok a → ∃ object s', deserializePlist host v s = .ok (object, s') := by
  induction v using Value.ind with
  | array items ih =>
    intro s a hplist hready hstorable hroom
    have hitems : ∀ {s : Graph} {a : Mem.Allocator}, Value.AllItems Value.plistPart items → s.heap.Ready →
        Value.AllItems Value.storablePart items →
        Mem.Allocator.allocAll (Value.blobsOfItems items) s.heap.allocator = .ok a →
        ∃ array s', deserializeItems host items s = .ok (array, s') := by
      clear hplist hready hstorable hroom
      induction items with
      | nil => exact fun {s a} _ _ _ _ => ⟨[], s, rfl⟩
      | cons v items ihl =>
        intro s a hplist hready hstorable hroom
        change Mem.Allocator.allocAll (v.blobs ++ Value.blobsOfItems items) _ = _ at hroom
        rw [Mem.Allocator.allocAll_append] at hroom
        obtain ⟨a₁, hroom₁, hroom₂⟩ := bind_eq_ok.1 hroom
        obtain ⟨o, s₁, hfirst⟩ := ih v List.mem_cons_self hplist.1 hready hstorable.1 hroom₁
        obtain ⟨hcreated, -⟩ := deserialize_cases v hplist.1 hready hfirst
        rw [hcreated.room] at hroom₁
        cases hroom₁
        obtain ⟨rest, s₂, hsecond⟩ :=
          ihl (fun w hw => ih w (List.mem_cons_of_mem v hw)) hplist.2 hcreated.ready hstorable.2 hroom₂
        exact ⟨o :: rest, s₂, bind_eq_ok.2 ⟨_, hfirst, bind_eq_ok.2 ⟨_, hsecond, rfl⟩⟩⟩
    obtain ⟨array, s₁, hall⟩ := hitems hplist.2 hready hstorable.2 hroom
    exact ⟨_, _, bind_eq_ok.2 ⟨_, hall, rfl⟩⟩
  | dictionary entries ih =>
    intro s a hplist hready hstorable hroom
    have hentries : ∀ {s : Graph} {a : Mem.Allocator}, Value.AllEntries Value.plistPart entries → s.heap.Ready →
        Value.AllEntries Value.storablePart entries →
        Mem.Allocator.allocAll (Value.blobsOfEntries entries) s.heap.allocator = .ok a →
        ∃ l s', deserializeEntries host entries s = .ok (l, s') := by
      clear hplist hready hstorable hroom
      induction entries with
      | nil => exact fun {s a} _ _ _ _ => ⟨[], s, rfl⟩
      | cons e entries ihl =>
        obtain ⟨key, v⟩ := e
        intro s a hplist hready hstorable hroom
        change Mem.Allocator.allocAll (v.blobs ++ Value.blobsOfEntries entries) _ = _ at hroom
        rw [Mem.Allocator.allocAll_append] at hroom
        obtain ⟨a₁, hroom₁, hroom₂⟩ := bind_eq_ok.1 hroom
        have hready₁ : (s.create (.string key)).2.heap.Ready := hready
        obtain ⟨o, s₁, hfirst⟩ := ih (key, v) List.mem_cons_self hplist.1 hready₁ hstorable.1 hroom₁
        obtain ⟨hcreated, -⟩ := deserialize_cases v hplist.1 hready₁ hfirst
        have hsame : Except.ok s₁.heap.allocator = Except.ok a₁ := hcreated.room.symm.trans hroom₁
        cases hsame
        obtain ⟨rest, s₂, hsecond⟩ :=
          ihl (fun w hw => ih w (List.mem_cons_of_mem _ hw)) hplist.2 hcreated.ready hstorable.2 hroom₂
        exact ⟨(_, o) :: rest, s₂, bind_eq_ok.2 ⟨_, hfirst, bind_eq_ok.2 ⟨_, hsecond, rfl⟩⟩⟩
    obtain ⟨l, s₁, hall⟩ := hentries hplist.2 hready hstorable.2 hroom
    obtain ⟨-, -, -, -, hrep⟩ := Faithful.entries (fun e _ => deserialize_cases e.2) hplist.2 hready hall
    obtain ⟨htexts, hlength⟩ := hrep.texts
    have hlt : l.length < 2 ^ 32 := hlength ▸ hstorable.1
    obtain ⟨d, hdict, -⟩ := (dictFromKeysAndObjects_spec host htexts hplist.1).1 hlt
    exact ⟨_, _, bind_eq_ok.2 ⟨_, hall, bind_eq_ok.2 ⟨d, hdict, rfl⟩⟩⟩
  | leaf v harray hdict =>
    intro s a hplist hready hstorable hroom
    cases v with
    | array items => exact absurd rfl (harray items)
    | dictionary entries => exact absurd rfl (hdict entries)
    | data d =>
      have hlt : d.length < 2 ^ 32 := hstorable
      obtain ⟨⟨p, a₁⟩, ha, -⟩ : ∃ r, s.heap.allocator.alloc d.length = .ok r ∧ True := by
        change Mem.Allocator.allocAll [d.length] _ = _ at hroom
        rw [Mem.Allocator.allocAll, List.foldlM_cons] at hroom
        obtain ⟨a₁, h₁, -⟩ := bind_eq_ok.1 hroom
        cases halloc : s.heap.allocator.alloc d.length with
        | error e =>
          rw [halloc] at h₁
          cases h₁
        | ok r => exact ⟨r, rfl, trivial⟩
      obtain ⟨h', ⟨h₁, m, halloc, hwrite, -⟩, -⟩ := hready.stored hlt ha
      refine ⟨_, _, bind_eq_ok.2 ⟨d.length, if_pos hlt, bind_eq_ok.2 ⟨_, halloc, bind_eq_ok.2 ⟨m, hwrite, rfl⟩⟩⟩⟩
    | uid u => exact hplist.elim
    | date t => exact ⟨_, _, bind_eq_ok.2 ⟨_, if_pos hstorable, rfl⟩⟩
    | _ => exact ⟨_, _, rfl⟩

/-! ## Objects are serialized -/

/-- the entries for the pairs of a dictionary -/
theorem insertAll_ok {l : List (ℕ × ℕ)} {d : List (String × Value)}
    (h : ∀ e ∈ l, ∃ key v, s.text e.1 = some key ∧ f e.2 = .ok v) : ∃ dict', l.foldlM (fun dict e => do
      let keyString ← unwrap (s.text e.1) .hostObject
      let valPlist ← f e.2
      pure (Assoc.insert keyString valPlist dict)) d = .ok dict' := by
  induction l generalizing d with
  | nil => exact ⟨d, rfl⟩
  | cons e l ih =>
    obtain ⟨key, v, hkey, hv⟩ := h e List.mem_cons_self
    rw [List.foldlM_cons, hkey, hv]
    exact ih fun e' he' => h e' (List.mem_cons_of_mem e he')

/-- what the entries are, if the texts are different -/
theorem insertAll_cases {l : List (ℕ × ℕ)} {dict dict' : List (String × Value)}
    (hnodup : (l.map fun e => s.text e.1).Nodup) (hapart : ∀ e ∈ l, ∀ e' ∈ dict, s.text e.1 ≠ some e'.1)
    (h : l.foldlM (fun dict e => do
      let keyString ← unwrap (s.text e.1) .hostObject
      let valPlist ← f e.2
      pure (Assoc.insert keyString valPlist dict)) dict = .ok dict') :
    (∀ e ∈ l, ∃ key v, s.text e.1 = some key ∧ f e.2 = .ok v ∧ dict'.lookup key = some v) ∧
      (∀ e ∈ dict, (∀ e' ∈ l, s.text e'.1 ≠ some e.1) → dict'.lookup e.1 = dict.lookup e.1) ∧
      dict'.length = dict.length + l.length := by
  induction l generalizing dict with
  | nil =>
    cases h
    exact ⟨fun _ he => (nomatch he), fun _ _ _ => rfl, rfl⟩
  | cons e l ih =>
    rw [List.foldlM_cons] at h
    obtain ⟨dict₁, hone, hrest⟩ := bind_eq_ok.1 h
    obtain ⟨key, hkey, hone⟩ := bind_eq_ok.1 hone
    obtain ⟨v, hv, hone⟩ := bind_eq_ok.1 hone
    cases hone
    have htext : s.text e.1 = some key := unwrap_eq_ok.1 hkey
    rw [List.map_cons, List.nodup_cons] at hnodup
    have hother : ∀ e' ∈ l, s.text e'.1 ≠ some key := by
      intro e' he' heq
      refine hnodup.1 ?_
      rw [htext, ← heq]
      exact List.mem_map_of_mem (f := fun e => s.text e.1) he'
    have hfilter : dict.filter (fun a => a.1 ≠ key) = dict := by
      refine List.filter_eq_self.2 fun a ha => decide_eq_true fun heq => ?_
      exact hapart e List.mem_cons_self a ha (heq ▸ htext)
    have hinsert : Assoc.insert key v dict = (key, v) :: dict := by rw [Assoc.insert, hfilter]
    rw [hinsert] at hrest
    obtain ⟨hall, hold, hlength⟩ := ih hnodup.2 (fun e' he' a ha => by
      rcases List.mem_cons.1 ha with rfl | ha
      · exact hother e' he'
      · exact hapart e' (List.mem_cons_of_mem e he') a ha) hrest
    refine ⟨fun e' he' => ?_, fun a ha hno => ?_, ?_⟩
    · rcases List.mem_cons.1 he' with rfl | he'
      · refine ⟨key, v, htext, hv, ?_⟩
        rw [hold (key, v) List.mem_cons_self hother, List.lookup_cons_self]
      · exact hall e' he'
    · rw [hold a (List.mem_cons_of_mem _ ha) fun e' he' => hno e' (List.mem_cons_of_mem e he'), List.lookup_cons,
        beq_false_of_ne]
      rintro rfl
      exact hno e List.mem_cons_self htext
    · rw [hlength, List.length_cons, List.length_cons]
      omega

/-- the pairs of a dictionary in the order in which they are serialized -/
theorem Holds.order {d : DictionaryHostObject} {l : List (ℕ × ℕ)} (h : Holds d l) (host : PlistHost) :
    (pairs (host.order d.map)).Perm l := ((host.perm d.map).flatMap_right _).trans h

/-- **The entries of a dictionary** that is serialized -/
theorem serialize_entries {d : DictionaryHostObject} {l : List (ℕ × ℕ)} {entries : List (String × Value)}
    {dict : List (String × Value)} (hholds : Holds d l)
    (hentries : RepresentsEntries s bound entries l) (hnodup : (entries.map Prod.fst).Nodup)
    (h : (pairs (host.order d.map)).foldlM (fun dict e => do
      let keyString ← unwrap (s.text e.1) .hostObject
      let valPlist ← f e.2
      pure (Assoc.insert keyString valPlist dict)) [] = .ok dict) :
    dict.length = entries.length ∧
      ∀ e ∈ entries, ∃ object v, Represents s e.2 object ∧ f object = .ok v ∧ dict.lookup e.1 = some v := by
  have hperm := hholds.order host
  obtain ⟨htexts, hlength⟩ := hentries.texts
  have hdistinct : (l.map fun e => s.text e.1).Nodup := htexts ▸ hnodup.map (Option.some_injective _)
  obtain ⟨hall, -, hcount⟩ := insertAll_cases ((hperm.map fun e => s.text e.1).nodup_iff.2 hdistinct)
    (fun _ _ _ he => absurd he List.not_mem_nil) h
  refine ⟨?_, fun e he => ?_⟩
  · rw [hcount, hperm.length_eq, hlength, List.length_nil, Nat.zero_add]
  · obtain ⟨p, hp, htext, hrep⟩ := hentries.mem he
    obtain ⟨key, v, hkey, hv, hlookup⟩ := hall p (hperm.mem_iff.2 hp)
    rw [htext] at hkey
    cases hkey
    exact ⟨p.2, v, hrep, hv, hlookup⟩

/-- **What comes back** is equal to the value exactly if it is serializable. -/
theorem serialize_equal_iff (v : Value) : ∀ {depth : ℕ} {s : Graph} {object : ℕ} {v' : Value}, v.IsPlist → v.Storable →
    Represents s v object → serializePlist host depth s object = .ok v' → (v.Equal v' ↔ v.Serializable) := by
  induction v using Value.ind with
  | array items ih =>
    rintro depth s object v' hplist hstorable ⟨array, hobject, hitems⟩ h
    cases depth with
    | zero => cases h
    | succ depth =>
      rw [serializePlist, hobject, unwrap, ok_bind] at h
      obtain ⟨arr, harr, hlast⟩ := bind_eq_ok.1 h
      cases hlast
      have hall : ∀ {array : List ℕ} {arr : List Value}, RepresentsItems s object items array →
          array.mapM (serializePlist host depth (s.takeArray object)) = .ok arr →
          (Value.EqualItems items arr ↔ Value.AllItems Value.serializablePart items) := by
        clear hobject hitems harr
        induction items with
        | nil =>
          rintro array arr rfl harr
          cases harr
          exact ⟨fun _ => trivial, fun _ => rfl⟩
        | cons v items ihl =>
          rintro array arr ⟨o, rest, rfl, hlt, hv, hrest⟩ harr
          rw [List.mapM_cons] at harr
          obtain ⟨v', hv', hmore⟩ := bind_eq_ok.1 harr
          obtain ⟨arr', harr', hlast⟩ := bind_eq_ok.1 hmore
          cases hlast
          have hfirst := ih v List.mem_cons_self hplist.2.1 hstorable.2.1 (hv.takeArray hlt) hv'
          have hothers := ihl (fun w hw => ih w (List.mem_cons_of_mem v hw)) ⟨trivial, hplist.2.2⟩ ⟨trivial, hstorable.2.2⟩
            hrest harr'
          constructor
          · rintro ⟨w, ws, heq, hw, hws⟩
            cases heq
            exact ⟨hfirst.1 hw, hothers.1 hws⟩
          · rintro ⟨hw, hws⟩
            exact ⟨v', arr', rfl, hfirst.2 hw, hothers.2 hws⟩
      constructor
      · rintro ⟨arr', heq, hequal⟩
        cases heq
        exact ⟨trivial, (hall hitems harr).1 hequal⟩
      · intro hserial
        exact ⟨arr, rfl, (hall hitems harr).2 hserial.2⟩
  | dictionary entries ih =>
    rintro depth s object v' hplist hstorable ⟨d, l, hobject, hholds, hentries⟩ h
    cases depth with
    | zero => cases h
    | succ depth =>
      rw [serializePlist, hobject, unwrap, ok_bind] at h
      obtain ⟨dict, hdict, hlast⟩ := bind_eq_ok.1 h
      cases hlast
      obtain ⟨hlength, hall⟩ := serialize_entries hholds hentries hplist.1 hdict
      have hentry : ∀ e ∈ entries, (∃ v', dict.lookup e.1 = some v' ∧ e.2.Equal v') ↔ e.2.Serializable := by
        intro e he
        obtain ⟨o, v, hrep, hv, hlookup⟩ := hall e he
        have hiff := ih e he (Value.allEntries_iff.1 hplist.2 e he) (Value.allEntries_iff.1 hstorable.2 e he) hrep hv
        constructor
        · rintro ⟨v', hv', hequal⟩
          rw [hlookup] at hv'
          cases hv'
          exact hiff.1 hequal
        · exact fun hserial => ⟨v, hlookup, hiff.2 hserial⟩
      constructor
      · rintro ⟨dict', heq, -, hequal⟩
        cases heq
        exact ⟨trivial, Value.allEntries_iff.2 fun e he => (hentry e he).1 (Value.equalEntries_iff.1 hequal e he)⟩
      · intro hserial
        exact ⟨dict, rfl, hlength,
          Value.equalEntries_iff.2 fun e he => (hentry e he).2 (Value.allEntries_iff.1 hserial.2 e he)⟩
  | leaf v harray hdict =>
    intro depth s object v' hplist hstorable hv h
    cases depth with
    | zero => cases h
    | succ depth =>
      cases v with
      | array items => exact absurd rfl (harray items)
      | dictionary entries => exact absurd rfl (hdict entries)
      | data d =>
        obtain ⟨p, hobject, hstored⟩ := hv
        rw [serializePlist, hobject, unwrap, ok_bind] at h
        simp only [hstored.read, ok_bind, pure_eq_ok] at h
        cases h
        exact ⟨fun _ => trivial, fun _ => rfl⟩
      | uid u => exact hv.elim
      | date t =>
        have hobject : s.hostObject object = some (.date (asSecsF64 (t - appleEpoch).toNat)) := hv
        rw [serializePlist, hobject, unwrap, ok_bind] at h
        obtain ⟨nanos, hnanos, hrest⟩ := bind_eq_ok.1 h
        obtain ⟨time, htime, hlast⟩ := bind_eq_ok.1 hrest
        cases hlast
        unfold timeAdd at htime
        split_ifs at htime
        cases htime
        have hle : appleEpoch ≤ t := hstorable
        change Value.date (appleEpoch + nanos) = .date t ↔ fromSecsF64 (asSecsF64 (t - appleEpoch).toNat) = _
        rw [hnanos, Value.date.injEq, Except.ok.injEq]
        omega
      | integer int =>
        have hobject : s.hostObject object = some (.number (numberFor int)) := hv
        rw [serializePlist, hobject, unwrap, ok_bind] at h
        unfold numberFor at h
        split_ifs at h with hlt
        · cases h
          exact ⟨fun _ => hlt, fun _ => rfl⟩
        · cases h
      | _ =>
        rw [serializePlist, hv, unwrap, ok_bind] at h
        cases h
        exact ⟨fun _ => trivial, fun _ => rfl⟩

/-- a value comes back whenever the methods may call themselves to a depth that is enough -/
def Returns (host : PlistHost) (s : Graph) (object : ℕ) : Prop :=
  ∃ n, ∀ depth, n ≤ depth → ∃ v, serializePlist host depth s object = .ok v

theorem serialize_returns (v : Value) : ∀ {s : Graph} {object : ℕ}, v.IsPlist → v.Storable → v.Serializable →
    Represents s v object → Returns host s object := by
  induction v using Value.ind with
  | array items ih =>
    rintro s object hplist hstorable hserial ⟨array, hobject, hitems⟩
    have hall : ∀ {array : List ℕ}, RepresentsItems s object items array → ∃ n, ∀ depth, n ≤ depth →
        ∃ arr, array.mapM (serializePlist host depth (s.takeArray object)) = .ok arr := by
      clear hobject hitems
      induction items with
      | nil =>
        rintro array rfl
        exact ⟨0, fun _ _ => ⟨[], rfl⟩⟩
      | cons v items ihl =>
        rintro array ⟨o, rest, rfl, hlt, hv, hrest⟩
        obtain ⟨n, hn⟩ := ih v List.mem_cons_self hplist.2.1 hstorable.2.1 hserial.2.1 (hv.takeArray hlt)
        obtain ⟨n', hn'⟩ := ihl (fun w hw => ih w (List.mem_cons_of_mem v hw)) ⟨trivial, hplist.2.2⟩ ⟨trivial, hstorable.2.2⟩
          ⟨trivial, hserial.2.2⟩ hrest
        refine ⟨max n n', fun depth hdepth => ?_⟩
        obtain ⟨v', hv'⟩ := hn depth ((le_max_left _ _).trans hdepth)
        obtain ⟨arr, harr⟩ := hn' depth ((le_max_right _ _).trans hdepth)
        exact ⟨v' :: arr, by rw [List.mapM_cons, hv', ok_bind, harr, ok_bind, pure_eq_ok]⟩
    obtain ⟨n, hn⟩ := hall hitems
    refine ⟨n + 1, fun depth hdepth => ?_⟩
    obtain ⟨depth, rfl⟩ := Nat.exists_eq_add_of_le' (Nat.le_of_add_left_le hdepth)
    obtain ⟨arr, harr⟩ := hn depth (Nat.le_of_add_le_add_right hdepth)
    refine ⟨.array arr, ?_⟩
    rw [serializePlist, hobject, unwrap, ok_bind]
    simp only [harr, ok_bind, pure_eq_ok]
  | dictionary entries ih =>
    rintro s object hplist hstorable hserial ⟨d, l, hobject, hholds, hentries⟩
    have hmember : ∀ e ∈ entries, ∀ o, Represents s e.2 o → Returns host s o := fun e he o ho =>
      ih e he (Value.allEntries_iff.1 hplist.2 e he) (Value.allEntries_iff.1 hstorable.2 e he)
        (Value.allEntries_iff.1 hserial.2 e he) ho
    have hall : ∀ {l : List (ℕ × ℕ)}, RepresentsEntries s object entries l → ∃ n, ∀ depth, n ≤ depth →
        ∀ p ∈ l, ∃ key v, s.text p.1 = some key ∧ serializePlist host depth s p.2 = .ok v := by
      clear hobject hholds hentries ih hplist hstorable hserial
      induction entries with
      | nil =>
        rintro l rfl
        exact ⟨0, fun _ _ _ hp => (by cases hp)⟩
      | cons e entries ihl =>
        rintro l ⟨ko, o, rest, rfl, hkey, -, -, hv, hrest⟩
        obtain ⟨n, hn⟩ := hmember e List.mem_cons_self o hv
        obtain ⟨n', hn'⟩ := ihl (fun w hw => hmember w (List.mem_cons_of_mem e hw)) hrest
        refine ⟨max n n', fun depth hdepth => List.forall_mem_cons.2 ⟨?_, ?_⟩⟩
        · obtain ⟨v', hv'⟩ := hn depth ((le_max_left _ _).trans hdepth)
          exact ⟨e.1, v', by rw [Graph.text, hkey], hv'⟩
        · exact hn' depth ((le_max_right _ _).trans hdepth)
    obtain ⟨n, hn⟩ := hall hentries
    refine ⟨n + 1, fun depth hdepth => ?_⟩
    obtain ⟨depth, rfl⟩ := Nat.exists_eq_add_of_le' (Nat.le_of_add_left_le hdepth)
    have hpairs := hn depth (Nat.le_of_add_le_add_right hdepth)
    have hordered := fun p hp => hpairs p ((hholds.order host).mem_iff.1 hp)
    obtain ⟨dict, hdict⟩ := insertAll_ok (d := []) hordered
    refine ⟨.dictionary dict, ?_⟩
    rw [serializePlist, hobject, unwrap, ok_bind]
    exact bind_eq_ok.2 ⟨dict, hdict, rfl⟩
  | leaf v harray hdict =>
    intro s object hplist hstorable hserial hv
    refine ⟨1, fun depth hdepth => ?_⟩
    obtain ⟨depth, rfl⟩ := Nat.exists_eq_add_of_le' hdepth
    cases v with
    | array items => exact absurd rfl (harray items)
    | dictionary entries => exact absurd rfl (hdict entries)
    | data d =>
      obtain ⟨p, hobject, hstored⟩ := hv
      refine ⟨.data d, ?_⟩
      rw [serializePlist, hobject, unwrap, ok_bind]
      simp only [hstored.read, ok_bind, pure_eq_ok]
    | uid u => exact hv.elim
    | date t =>
      have hobject : s.hostObject object = some (.date (asSecsF64 (t - appleEpoch).toNat)) := hv
      have hle : appleEpoch ≤ t := hstorable
      have htime : timeAdd appleEpoch (t - appleEpoch).toNat = .ok (appleEpoch + (t - appleEpoch).toNat) := by
        unfold timeAdd
        rw [Int.toNat_of_nonneg (Int.sub_nonneg.2 hle), add_sub_cancel]
        exact if_pos hplist
      refine ⟨.date (appleEpoch + (t - appleEpoch).toNat), ?_⟩
      rw [serializePlist, hobject, unwrap, ok_bind]
      exact bind_eq_ok.2 ⟨_, hserial, bind_eq_ok.2 ⟨_, htime, rfl⟩⟩
    | integer int =>
      have hobject : s.hostObject object = some (.number (numberFor int)) := hv
      have hlt : int < 2 ^ 63 := hserial
      refine ⟨.integer int, ?_⟩
      rw [serializePlist, hobject, unwrap, ok_bind, numberFor, if_pos hlt]
      rfl
    | _ =>
      rw [serializePlist, hv, unwrap, ok_bind]
      exact ⟨_, rfl⟩

/-! ## Round trips -/

/-- **A value comes back** as an equal one, and nothing panics. -/
def RoundTrips (host : PlistHost) (s : Graph) (v : Value) : Prop :=
  ∃ object s' depth v', deserializePlist host v s = .ok (object, s') ∧ serializePlist host depth s' object = .ok v' ∧
    v.Equal v'

/-- there is guest memory for all data of the value -/
def Room (s : Graph) (v : Value) : Prop := ∃ a, Mem.Allocator.allocAll v.blobs s.heap.allocator = .ok a

/-- **The values that come back** are those whose parts both directions can deal with, if there is memory for them. -/
theorem round_trip_iff (host : PlistHost) {s : Graph} {v : Value} (hready : s.heap.Ready) (hv : v.IsPlist) :
    RoundTrips host s v ↔ v.Storable ∧ v.Serializable ∧ Room s v := by
  constructor
  · rintro ⟨object, s', depth, v', hok, hback, hequal⟩
    obtain ⟨hcreated, hrep⟩ := deserialize_cases v hv hready hok
    exact ⟨hcreated.storable, (serialize_equal_iff v hv hcreated.storable hrep hback).1 hequal, _, hcreated.room⟩
  · rintro ⟨hstorable, hserial, a, hroom⟩
    have hcreate : ∃ object s', deserializePlist host v s = .ok (object, s') := deserialize_ok v hv hready hstorable hroom
    obtain ⟨object, s', hok⟩ := hcreate
    obtain ⟨hcreated, hrep⟩ := deserialize_cases v hv hready hok
    have hreturns : Returns host s' object := serialize_returns v hv hstorable hserial hrep
    obtain ⟨n, hn⟩ := hreturns
    obtain ⟨v', hback⟩ := hn n le_rfl
    exact ⟨object, s', n, v', hok, hback, (serialize_equal_iff v hv hstorable hrep hback).2 hserial⟩

end

def plainPlistHost : PlistHost := ⟨fun _ => 0, id, id, List.Perm.refl⟩

/-- memory as it is at first is ready -/
theorem ready_new {h : Heap} (hnew : Heap.new = .ok h) : h.Ready := by
  refine ⟨Heap.new_sound hnew, ?_⟩
  obtain ⟨a, -, hlast⟩ := bind_eq_ok.1 hnew
  cases hlast
  exact fun x hx => absurd hx (Nat.not_lt_zero x)

theorem exists_new : ∃ h, Heap.new = .ok h := by
  obtain ⟨a, ha, -⟩ := Mem.Allocator.new_ok
  exact ⟨_, bind_eq_ok.2 ⟨a, ha, rfl⟩⟩

/-- a dictionary with a number -/
theorem round_trip_iff_seven : ∃ s : Graph, RoundTrips plainPlistHost s (.dictionary [("a", .integer 7)]) ↔
    (Value.dictionary [("a", .integer 7)]).Storable ∧ (Value.dictionary [("a", .integer 7)]).Serializable ∧
      Room s (.dictionary [("a", .integer 7)]) := by
  obtain ⟨h, hnew⟩ := exists_new
  have hplist : (Value.dictionary [("a", .integer 7)]).IsPlist :=
    ⟨List.nodup_singleton _, ⟨by decide, by decide⟩, trivial⟩
  exact ⟨⟨h, []⟩, round_trip_iff plainPlistHost (ready_new hnew) hplist⟩

/-- **A large integer** is deserialized, and there is no branch for it when it is serialized. -/
theorem large_integer : ¬∀ host (s : Graph) v, s.heap.Ready → v.IsPlist → Room s v → RoundTrips host s v := by
  intro hall
  obtain ⟨h, hnew⟩ := exists_new
  have hplist : (Value.integer (2 ^ 63)).IsPlist := ⟨by decide, by decide⟩
  obtain ⟨object, s', depth, v', hok, hback, -⟩ :=
    hall plainPlistHost ⟨h, []⟩ (.integer (2 ^ 63)) (ready_new hnew) hplist ⟨_, rfl⟩
  cases hok
  cases depth <;> exact nomatch hback

end TouchHLE
