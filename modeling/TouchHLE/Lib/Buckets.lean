/-
Hash tables for keys that bring their own hash and equality: a hash map from hashes to buckets, each a list of pairs.

- `position`, `find`: a bucket is searched from its front.
- `find_concat`, `find_set`, `find_eraseIdx`: what is found in a bucket that has changed.
- `WellFormed`: every pair is in the bucket of its hash, and no two pairs of a bucket have the same key.
- `WellFormed.replace`, `valueAt_replace`: one bucket is replaced.
- `pairs_perm`: the pairs of a table, those of one bucket first.
- `WellFormed.add`, `WellFormed.change`, `WellFormed.remove`: the operations.
- `ncard_keySets`: there are as many pairs as different keys with a value.
-/
import TouchHLE.Lib.Assoc

namespace TouchHLE.Buckets

variable {κ υ : Type}

/-- a hash and an equality that fit together -/
structure Consistent (hash : κ → ℕ) (same : κ → κ → Bool) : Prop where
  refl : ∀ a, same a a = true
  symm : ∀ a b, same a b = true → same b a = true
  trans : ∀ a b c, same a b = true → same b c = true → same a c = true
  hash : ∀ a b, same a b = true → hash a = hash b

def position (same : κ → κ → Bool) (key : κ) (b : List (κ × υ)) : Option ℕ := b.findIdx? fun e => same e.1 key

def find (same : κ → κ → Bool) (key : κ) (b : List (κ × υ)) : Option υ := (b.find? fun e => same e.1 key).map Prod.snd

def Distinct (same : κ → κ → Bool) (b : List (κ × υ)) : Prop := (b.map Prod.fst).Pairwise fun k k' => same k k' = false

def bucket (t : List (ℕ × List (κ × υ))) (h : ℕ) : List (κ × υ) := (t.lookup h).getD []

def pairs (t : List (ℕ × List (κ × υ))) : List (κ × υ) := t.flatMap Prod.snd

def valueAt (hash : κ → ℕ) (same : κ → κ → Bool) (t : List (ℕ × List (κ × υ))) (key : κ) : Option υ :=
  find same key (bucket t (hash key))

/-- the keys that are the same as a key with a value -/
def keySets (same : κ → κ → Bool) (f : κ → Option υ) : Set (Set κ) :=
  {c | ∃ k, (f k).isSome ∧ c = {k' | same k k' = true}}

structure WellFormed (hash : κ → ℕ) (same : κ → κ → Bool) (t : List (ℕ × List (κ × υ))) : Prop where
  nodup : (t.map Prod.fst).Nodup
  home : ∀ h, ∀ e ∈ bucket t h, hash e.1 = h
  distinct : ∀ h, Distinct same (bucket t h)

variable {hash : κ → ℕ} {same : κ → κ → Bool} {key k : κ} {v : υ} {b pre post : List (κ × υ)} {e : κ × υ} {i h : ℕ}
  {t : List (ℕ × List (κ × υ))}

theorem Consistent.congr (hc : Consistent hash same) (h : same k key = true) (a : κ) : same k a = same key a := by
  rw [Bool.eq_iff_iff]
  constructor
  · intro ha
    exact hc.trans key k a (hc.symm k key h) ha
  · intro ha
    exact hc.trans k key a h ha

theorem Consistent.comm (hc : Consistent hash same) (a a' : κ) : same a a' = same a' a := by
  rw [Bool.eq_iff_iff]
  exact ⟨hc.symm a a', hc.symm a' a⟩

/-! ## One bucket -/

theorem position_eq_none : position same key b = none ↔ ∀ e ∈ b, same e.1 key = false := by
  rw [position, List.findIdx?_eq_none_iff]

theorem position_cases (hp : position same key b = some i) : ∃ pre e post, b = pre ++ e :: post ∧ i = pre.length ∧
    same e.1 key = true ∧ ∀ a ∈ pre, same a.1 key = false := by
  obtain ⟨hi, hkey, hbefore⟩ := List.findIdx?_eq_some_iff_getElem.1 hp
  refine ⟨b.take i, b[i], b.drop (i + 1), ?_, ?_, hkey, fun a ha => ?_⟩
  · rw [List.getElem_cons_drop, List.take_append_drop]
  · rw [List.length_take, min_eq_left hi.le]
  · obtain ⟨j, hj, rfl⟩ := List.getElem_of_mem ha
    rw [List.length_take] at hj
    rw [List.getElem_take]
    simpa using hbefore j (lt_of_lt_of_le hj (min_le_left _ _))

theorem find_eq_none : find same key b = none ↔ ∀ e ∈ b, same e.1 key = false := by
  rw [find, Option.map_eq_none_iff, List.find?_eq_none]
  simp

/-- a pair decides for the keys that are the same as its own, if none before it has such a key -/
theorem find_split (hc : Consistent hash same) (hpre : ∀ a ∈ pre, same a.1 e.1 = false) :
    find same k (pre ++ e :: post) = if same e.1 k = true then some e.2 else find same k (pre ++ post) := by
  unfold find
  rw [List.find?_append, List.find?_append, List.find?_cons]
  split_ifs with he
  · have hnone : (pre.find? fun a => same a.1 k) = none := by
      rw [List.find?_eq_none]
      intro a ha
      rw [hc.comm, ← hc.congr he, hc.comm, hpre a ha]
      exact Bool.false_ne_true
    rw [hnone, he]
    rfl
  · rw [Bool.not_eq_true] at he
    rw [he]

theorem find_concat (hc : Consistent hash same) (hnew : ∀ e ∈ b, same e.1 key = false) :
    find same k (b ++ [(key, v)]) = if same key k = true then some v else find same k b := by
  rw [find_split hc hnew, List.append_nil]

theorem find_set (hc : Consistent hash same) (hp : position same key b = some i) (he : b[i]? = some e) :
    find same k (b.set i (e.1, v)) = if same key k = true then some v else find same k b := by
  obtain ⟨pre, a, post, rfl, rfl, hkey, hbefore⟩ := position_cases hp
  rw [List.getElem?_append_right le_rfl, Nat.sub_self, List.getElem?_cons_zero] at he
  cases he
  have hpre : ∀ a ∈ pre, same a.1 e.1 = false := fun a ha => by rw [hc.comm, hc.congr hkey, hc.comm, hbefore a ha]
  rw [List.set_append_right _ _ le_rfl, Nat.sub_self, List.set_cons_zero, find_split hc (e := (e.1, v)) hpre,
    find_split hc hpre, ← hc.congr hkey]
  split_ifs <;> rfl

theorem Distinct.tail (hd : Distinct same (pre ++ e :: post)) : ∀ a ∈ post, same e.1 a.1 = false := by
  unfold Distinct at hd
  rw [List.map_append, List.map_cons, List.pairwise_append, List.pairwise_cons] at hd
  exact fun a ha => hd.2.1.1 a.1 (List.mem_map_of_mem ha)

theorem find_eraseIdx (hc : Consistent hash same) (hd : Distinct same b) (hp : position same key b = some i) :
    find same k (b.eraseIdx i) = if same key k = true then none else find same k b := by
  obtain ⟨pre, e, post, rfl, rfl, hkey, hbefore⟩ := position_cases hp
  have hpre : ∀ a ∈ pre, same a.1 e.1 = false := fun a ha => by rw [hc.comm, hc.congr hkey, hc.comm, hbefore a ha]
  rw [List.eraseIdx_append_of_length_le le_rfl, Nat.sub_self, List.eraseIdx_cons_zero, find_split hc hpre,
    ← hc.congr hkey]
  split_ifs with hk
  · rw [find_eq_none]
    intro a ha
    rw [hc.comm, ← hc.congr hk]
    rcases List.mem_append.1 ha with ha | ha
    · rw [hc.comm, hpre a ha]
    · exact hd.tail a ha
  · rfl

theorem Distinct.concat (hd : Distinct same b) (hnew : ∀ e ∈ b, same e.1 key = false) :
    Distinct same (b ++ [(key, v)]) := by
  unfold Distinct at hd ⊢
  rw [List.map_append, List.pairwise_append]
  refine ⟨hd, List.pairwise_singleton _ _, fun a ha a' ha' => ?_⟩
  obtain ⟨e, he, rfl⟩ := List.mem_map.1 ha
  rw [List.map_singleton, List.mem_singleton] at ha'
  subst ha'
  exact hnew e he

theorem keys_set (he : b[i]? = some e) : (b.set i (e.1, v)).map Prod.fst = b.map Prod.fst := by
  apply List.ext_getElem?
  intro j
  rw [List.map_set, List.getElem?_set, List.getElem?_map]
  split_ifs with hj hlt
  · subst hj
    rw [he]
    rfl
  · subst hj
    rw [he]
    simp only [List.length_map] at hlt
    rw [List.getElem?_eq_none (not_lt.1 hlt)] at he
    cases he
  · rfl

theorem Distinct.set (hd : Distinct same b) (he : b[i]? = some e) : Distinct same (b.set i (e.1, v)) := by
  unfold Distinct
  rw [keys_set he]
  exact hd

theorem Distinct.eraseIdx (hd : Distinct same b) : Distinct same (b.eraseIdx i) :=
  hd.sublist ((List.eraseIdx_sublist b i).map Prod.fst)

/-! ## The table -/

theorem bucket_insert_self : bucket (Assoc.insert h b t) h = b := by
  rw [bucket, Assoc.lookup_insert_self]
  rfl

theorem bucket_insert_of_ne {h' : ℕ} (hne : h' ≠ h) : bucket (Assoc.insert h b t) h' = bucket t h' := by
  rw [bucket, Assoc.lookup_insert_of_ne hne, bucket]

theorem WellFormed.replace (hw : WellFormed hash same t) (hb : ∀ e ∈ b, hash e.1 = h) (hd : Distinct same b) :
    WellFormed hash same (Assoc.insert h b t) where
  nodup := Assoc.nodup_insert hw.nodup
  home h' e he := by
    by_cases hh : h' = h
    · subst hh
      rw [bucket_insert_self] at he
      exact hb e he
    · rw [bucket_insert_of_ne hh] at he
      exact hw.home h' e he
  distinct h' := by
    by_cases hh : h' = h
    · subst hh
      rw [bucket_insert_self]
      exact hd
    · rw [bucket_insert_of_ne hh]
      exact hw.distinct h'

theorem wellFormed_nil : WellFormed hash same ([] : List (ℕ × List (κ × υ))) where
  nodup := List.nodup_nil
  home h e he := by simp [bucket] at he
  distinct h := List.Pairwise.nil

/-- what is found for each key when one bucket is replaced by one in which `f` is found -/
theorem valueAt_replace {f : κ → Option υ} (hf : ∀ k, hash k = h → find same k b = f k)
    (hother : ∀ k, hash k ≠ h → valueAt hash same t k = f k) (k : κ) :
    valueAt hash same (Assoc.insert h b t) k = f k := by
  by_cases hk : hash k = h
  · rw [valueAt, hk, bucket_insert_self]
    exact hf k hk
  · rw [valueAt, bucket_insert_of_ne hk]
    exact hother k hk

theorem pairs_insert : pairs (Assoc.insert h b t) = b ++ pairs (Assoc.erase h t) := rfl

theorem pairs_perm (h : ℕ) (hn : (t.map Prod.fst).Nodup) : (pairs t).Perm (bucket t h ++ pairs (Assoc.erase h t)) := by
  induction t with
  | nil => exact List.Perm.refl _
  | cons a t ih =>
    obtain ⟨ha, hn⟩ := List.nodup_cons.1 hn
    by_cases hah : a.1 = h
    · -- the bucket is the first, and nothing else of the table is erased
      have herase : Assoc.erase h (a :: t) = t := by
        rw [Assoc.erase, List.filter_cons_of_neg (by simpa using hah), List.filter_eq_self]
        intro a' ha'
        have hne : a'.1 ≠ h := by
          rintro rfl
          exact ha (hah ▸ List.mem_map_of_mem ha')
        simpa using hne
      have hb : bucket (a :: t) h = a.2 := by
        rw [bucket, List.lookup_cons, hah, beq_self_eq_true]
        rfl
      rw [herase, hb]
      exact List.Perm.refl _
    · have herase : Assoc.erase h (a :: t) = a :: Assoc.erase h t := by
        rw [Assoc.erase, List.filter_cons_of_pos (by simpa using hah)]
        rfl
      have hb : bucket (a :: t) h = bucket t h := by
        have hbeq : (h == a.1) = false := by simpa using Ne.symm hah
        rw [bucket, List.lookup_cons, hbeq, bucket]
      rw [herase, hb]
      calc pairs (a :: t) = a.2 ++ pairs t := rfl
        _ |>.Perm (a.2 ++ (bucket t h ++ pairs (Assoc.erase h t))) := (ih hn).append_left a.2
        _ |>.Perm (bucket t h ++ (a.2 ++ pairs (Assoc.erase h t))) := List.perm_append_comm_assoc _ _ _

theorem mem_pairs_of_bucket (hn : (t.map Prod.fst).Nodup) (he : e ∈ bucket t h) : e ∈ pairs t :=
  (pairs_perm _ hn).mem_iff.2 (List.mem_append_left _ he)

theorem bucket_of_mem {a : ℕ × List (κ × υ)} (hn : (t.map Prod.fst).Nodup) (ha : a ∈ t) : bucket t a.1 = a.2 := by
  rw [bucket, Assoc.lookup_of_mem hn ha]
  rfl

theorem WellFormed.mem_pairs (hw : WellFormed hash same t) : e ∈ pairs t ↔ e ∈ bucket t (hash e.1) := by
  constructor
  · intro he
    obtain ⟨a, ha, hea⟩ := List.mem_flatMap.1 he
    rw [← bucket_of_mem hw.nodup ha] at hea
    rw [hw.home a.1 e hea]
    exact hea
  · exact mem_pairs_of_bucket hw.nodup

theorem WellFormed.valueAt_eq_none (hw : WellFormed hash same t) (hc : Consistent hash same) :
    valueAt hash same t key = none ↔ ∀ e ∈ pairs t, same e.1 key = false := by
  rw [valueAt, find_eq_none]
  constructor
  · intro h e he
    by_contra hne
    have hkey := Bool.eq_true_of_not_eq_false hne
    rw [hw.mem_pairs, hc.hash _ _ hkey] at he
    exact hne (h e he)
  · intro h e he
    exact h e (mem_pairs_of_bucket hw.nodup he)

/-- **No two pairs of a table have the same key.** -/
theorem WellFormed.pairwise (hw : WellFormed hash same t) (hc : Consistent hash same) : Distinct same (pairs t) := by
  unfold Distinct pairs
  rw [List.map_flatMap, List.pairwise_flatMap]
  constructor
  · intro a ha
    have hd := hw.distinct a.1
    rw [bucket_of_mem hw.nodup ha] at hd
    exact hd
  · have hn := hw.nodup
    rw [List.Nodup, List.pairwise_map] at hn
    refine hn.imp_of_mem fun ha ha' hne k hk k' hk' => ?_
    -- keys from different buckets have different hashes
    obtain ⟨e, he, rfl⟩ := List.mem_map.1 hk
    obtain ⟨e', he', rfl⟩ := List.mem_map.1 hk'
    rw [← bucket_of_mem hw.nodup ha] at he
    rw [← bucket_of_mem hw.nodup ha'] at he'
    by_contra hsame
    have hhash := hc.hash _ _ (Bool.eq_true_of_not_eq_false hsame)
    rw [hw.home _ e he, hw.home _ e' he'] at hhash
    exact hne hhash

/-- **There are as many pairs as different keys with a value.** -/
theorem WellFormed.ncard_keySets (hw : WellFormed hash same t) (hc : Consistent hash same) :
    (keySets same (valueAt hash same t)).ncard = (pairs t).length := by
  classical
  let sets := (pairs t).map fun e => {k | same e.1 k = true}
  have hnodup : sets.Nodup := by
    have hd := hw.pairwise hc
    rw [Distinct, List.pairwise_map] at hd
    rw [List.Nodup, List.pairwise_map]
    refine hd.imp fun {e e'} hne heq => ?_
    have hmem : e'.1 ∈ {k | same e.1 k = true} := heq ▸ hc.refl e'.1
    exact Bool.false_ne_true (hne.symm.trans hmem)
  have hset : keySets same (valueAt hash same t) = (sets.toFinset : Set (Set κ)) := by
    ext c
    rw [List.coe_toFinset]
    constructor
    · rintro ⟨k, hk, rfl⟩
      have hsome : ¬∀ e ∈ pairs t, same e.1 k = false := by
        rw [← hw.valueAt_eq_none hc]
        exact Option.isSome_iff_ne_none.1 hk
      push Not at hsome
      obtain ⟨e, he, hek⟩ := hsome
      refine List.mem_map.2 ⟨e, he, Set.ext fun k' => ?_⟩
      rw [Set.mem_ofPred_eq, Set.mem_ofPred_eq, hc.congr (Bool.eq_true_of_not_eq_false hek)]
    · intro hmem
      obtain ⟨e, he, rfl⟩ := List.mem_map.1 hmem
      refine ⟨e.1, ?_, rfl⟩
      rw [Option.isSome_iff_ne_none, Ne, hw.valueAt_eq_none hc]
      intro hall
      exact Bool.false_ne_true ((hall e he).symm.trans (hc.refl e.1))
  rw [hset, Set.ncard_coe_finset, List.toFinset_card_of_nodup hnodup, List.length_map]

/-! ## The operations of a table -/

/-- what is found for a key in a table that has been changed in the bucket of `h`, for keys of other hashes than the one
that was stored or removed -/
theorem valueAt_of_hash_ne {x : Option υ} (hc : Consistent hash same) (hk : hash k ≠ hash key) :
    valueAt hash same t k = if same key k = true then x else valueAt hash same t k := by
  rw [if_neg]
  intro hkey
  exact hk (hc.hash _ _ hkey).symm

/-- **A pair is added** under a key that is not in the table. -/
theorem WellFormed.add (hw : WellFormed hash same t) (hc : Consistent hash same) (hh : hash key = h)
    (hnew : position same key (bucket t h) = none) :
    WellFormed hash same (Assoc.insert h (bucket t h ++ [(key, v)]) t) ∧
    (∀ k, valueAt hash same (Assoc.insert h (bucket t h ++ [(key, v)]) t) k =
      if same key k = true then some v else valueAt hash same t k) ∧
    (pairs (Assoc.insert h (bucket t h ++ [(key, v)]) t)).Perm ((key, v) :: pairs t) := by
  subst hh
  rw [position_eq_none] at hnew
  refine ⟨hw.replace (fun e he => ?_) ((hw.distinct _).concat hnew), ?_, ?_⟩
  · rcases List.mem_append.1 he with he | he
    · exact hw.home _ e he
    · rw [List.mem_singleton.1 he]
  · refine valueAt_replace (fun k hk => ?_) fun k hk => valueAt_of_hash_ne hc hk
    rw [find_concat hc hnew, valueAt, hk]
  · rw [pairs_insert, List.append_assoc]
    exact List.perm_middle.trans ((pairs_perm _ hw.nodup).symm.cons _)

/-- **The value of a key is replaced**; the key in the table stays. -/
theorem WellFormed.change (hw : WellFormed hash same t) (hc : Consistent hash same) (hh : hash key = h)
    (hp : position same key (bucket t h) = some i) :
    ∃ e rest, (bucket t h)[i]? = some e ∧ same e.1 key = true ∧
      WellFormed hash same (Assoc.insert h ((bucket t h).set i (e.1, v)) t) ∧
      (∀ k, valueAt hash same (Assoc.insert h ((bucket t h).set i (e.1, v)) t) k =
        if same key k = true then some v else valueAt hash same t k) ∧
      (pairs t).Perm (e :: rest) ∧
      (pairs (Assoc.insert h ((bucket t h).set i (e.1, v)) t)).Perm ((e.1, v) :: rest) := by
  subst hh
  obtain ⟨pre, e, post, hb, rfl, hkey, -⟩ := position_cases hp
  have he : (bucket t (hash key))[pre.length]? = some e := by
    rw [hb]
    simp
  have hset : (bucket t (hash key)).set pre.length (e.1, v) = pre ++ (e.1, v) :: post := by
    rw [hb]
    simp
  have hmem : e ∈ bucket t (hash key) := List.mem_of_getElem? he
  refine ⟨e, pre ++ post ++ pairs (Assoc.erase (hash key) t), he, hkey, ?_, ?_, ?_, ?_⟩
  · refine hw.replace (fun a ha => ?_) ((hw.distinct _).set he)
    rcases List.mem_or_eq_of_mem_set ha with ha | rfl
    · exact hw.home _ a ha
    · exact hw.home _ e hmem
  · refine valueAt_replace (fun k hk => ?_) fun k hk => valueAt_of_hash_ne hc hk
    rw [find_set hc hp he, valueAt, hk]
  · refine (pairs_perm (hash key) hw.nodup).trans ?_
    rw [hb, List.append_assoc, List.append_assoc]
    exact List.perm_middle
  · rw [pairs_insert, hset, List.append_assoc, List.append_assoc]
    exact List.perm_middle

/-- **A pair is removed.** -/
theorem WellFormed.remove (hw : WellFormed hash same t) (hc : Consistent hash same) (hh : hash key = h)
    (hp : position same key (bucket t h) = some i) :
    ∃ e, (bucket t h)[i]? = some e ∧ same e.1 key = true ∧
      WellFormed hash same (Assoc.insert h ((bucket t h).eraseIdx i) t) ∧
      (∀ k, valueAt hash same (Assoc.insert h ((bucket t h).eraseIdx i) t) k =
        if same key k = true then none else valueAt hash same t k) ∧
      (pairs t).Perm (e :: pairs (Assoc.insert h ((bucket t h).eraseIdx i) t)) := by
  subst hh
  obtain ⟨pre, e, post, hb, rfl, hkey, -⟩ := position_cases hp
  have herase : (bucket t (hash key)).eraseIdx pre.length = pre ++ post := by
    rw [hb, List.eraseIdx_append_of_length_le le_rfl, Nat.sub_self, List.eraseIdx_cons_zero]
  refine ⟨e, ?_, hkey, ?_, ?_, ?_⟩
  · rw [hb]
    simp
  · refine hw.replace (fun a ha => ?_) (hw.distinct _).eraseIdx
    exact hw.home _ a ((List.eraseIdx_sublist _ _).subset ha)
  · refine valueAt_replace (fun k hk => ?_) fun k hk => valueAt_of_hash_ne hc hk
    rw [find_eraseIdx hc (hw.distinct _) hp, valueAt, hk]
  · refine (pairs_perm (hash key) hw.nodup).trans ?_
    rw [pairs_insert, herase, hb, List.append_assoc, List.append_assoc]
    exact List.perm_middle

/-- a key that is not in its bucket is in none -/
theorem WellFormed.valueAt_of_position (hw : WellFormed hash same t) (hc : Consistent hash same)
    (hp : position same key (bucket t (hash key)) = none) : ∀ e ∈ pairs t, same e.1 key = false := by
  rw [← hw.valueAt_eq_none hc, valueAt, find_eq_none]
  exact position_eq_none.1 hp

end TouchHLE.Buckets
