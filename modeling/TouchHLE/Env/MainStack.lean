/-
The stack that the program starts with (`stack.rs`): the arguments of its entry point, pushed downwards from the top of
memory.

- `pushAll`, `prepStackForStart`: the data, which is reversed, and its place in memory.
- `LaidOut`: a table of pointers from the stack pointer upward, and the strings that they address.
- `layout_never`: so it is never what `main` expects.
-/
import Mathlib.Data.List.GetD
import TouchHLE.Env.State
import TouchHLE.Mem.Allocator

namespace TouchHLE.MainStack

open Machine Words
open Abi (SP)
open Env (CpuContext)
open Mem (mainThreadStackSize mainThreadStackLowEnd)

/-! ## Model -/

def stackBase : ℕ := 2 ^ 32

/-- `(stack_base - len).try_into().unwrap()` -/
def ptrAtDepth (len : ℕ) : Except Panic UInt32 := do
  assert (len ≤ stackBase) .overflow
  assert (stackBase - len < 2 ^ 32) .conversion
  pure (.ofNat (stackBase - len))

/-- the data so far, which grows downwards, and the words of the table -/
structure Pushed where
  reversedData : List UInt8
  stringPtrs : List UInt32

def pushString (st : Pushed) (string : List UInt8) : Except Panic Pushed := do
  let reversedData := st.reversedData ++ 0 :: string.reverse
  let ptr ← ptrAtDepth reversedData.length
  pure ⟨reversedData, st.stringPtrs ++ [ptr]⟩

def Pushed.terminate (st : Pushed) : Pushed := { st with stringPtrs := st.stringPtrs ++ [0] }

def toBeBytes (w : UInt32) : List UInt8 := (leBytes w).reverse

def padBy (length : ℕ) : ℕ := if length % 4 ≠ 0 then 4 - length % 4 else 0

/-- the data, with the table in front of the strings -/
def pushAll (argv envp apple : List (List UInt8)) : Except Panic (List UInt8) := do
  assert (argv.length < 2 ^ 31) .conversion
  let st ← argv.foldlM pushString ⟨[], [.ofNat argv.length]⟩
  let st ← envp.foldlM pushString st
  let st ← apple.foldlM pushString st.terminate
  let st := st.terminate
  let aligned := st.reversedData ++ List.replicate (padBy st.reversedData.length) 0
  pure (aligned ++ st.stringPtrs.reverse.flatMap toBeBytes)

def prepStackForStart (mem : Mem) (cpu : CpuContext) (argv envp apple : List (List UInt8)) :
    Except Panic (Mem × CpuContext) := do
  let reversedData ← pushAll argv envp apple
  let stackPtr ← ptrAtDepth reversedData.length
  assert (reversedData.length < 2 ^ 32) .conversion
  let stackHeight := reversedData.length
  assert (stackHeight < mainThreadStackSize) .stackHeight
  mem.checkRange stackPtr.toNat stackHeight
  let stackRegion := (List.range stackHeight).map fun i => reversedData.getD (stackHeight - i - 1) 0
  let mem := { mem with bytes := store mem.bytes stackPtr.toNat stackRegion }
  assert (stackHeight % 4 = 0) .stackAlignment
  pure (mem, { cpu with regs := cpu.regs.setIfInBounds SP stackPtr })

/-- so many bytes from an address on -/
structure Region where
  start : ℕ
  size : ℕ

def Region.Apart (r s : Region) : Prop := r.start + r.size ≤ s.start ∨ s.start + s.size ≤ r.start

/-- the table, and each string with its terminator -/
def regions (sp : ℕ) (words : List UInt32) (copies : List (UInt32 × List UInt8)) : List Region :=
  ⟨sp, 4 * words.length⟩ :: copies.map fun c => ⟨c.1.toNat, c.2.length + 1⟩

/-- a table of words, and copies of strings at the addresses that go with them -/
structure LaidOutAt (m : Mem) (sp : ℕ) (words : List UInt32) (copies : List (UInt32 × List UInt8)) : Prop where
  table : ∀ i < words.length, loadWord m.bytes (sp + 4 * i) = words.getD i 0
  strings : ∀ c ∈ copies, load m.bytes c.1.toNat (c.2.length + 1) = c.2 ++ [0]
  apart : (regions sp words copies).Pairwise Region.Apart
  inside : ∀ r ∈ regions sp words copies, mainThreadStackLowEnd ≤ r.start ∧ r.start + r.size ≤ 2 ^ 32

/-- from the stack pointer upward: the number of arguments, the pointers to them, the words `afterArgv`, the pointers to the
environment, a null pointer, the pointers to what is behind it, and a null pointer -/
structure LaidOut (afterArgv : List UInt32) (m : Mem) (cpu : CpuContext) (argv envp apple : List (List UInt8)) : Prop where
  aligned : cpu.regs.sp % 4 = 0
  laidOut : ∃ argvPtrs envpPtrs applePtrs : List UInt32, argvPtrs.length = argv.length ∧ envpPtrs.length = envp.length ∧
    applePtrs.length = apple.length ∧ LaidOutAt m cpu.regs.sp
      (.ofNat argv.length :: (argvPtrs ++ (afterArgv ++ (envpPtrs ++ 0 :: (applePtrs ++ [0])))))
      (argvPtrs.zip argv ++ (envpPtrs.zip envp ++ applePtrs.zip apple))

/-! ## Pushing -/

variable {st st' : Pushed} {strings strings' : List (List UInt8)} {m : Mem} {data seg pre post : List UInt8}
  {words : List UInt32} {n sp len : ℕ} {ptr : UInt32}

/-- what strings add to the data -/
def pushed (strings : List (List UInt8)) : List UInt8 := strings.flatMap fun s => 0 :: s.reverse

/-- their addresses, below so many bytes -/
def ptrs : ℕ → List (List UInt8) → List UInt32
  | _, [] => []
  | n, s :: strings => .ofNat (stackBase - (n + (s.length + 1))) :: ptrs (n + (s.length + 1)) strings

theorem pushed_cons (s : List UInt8) (strings : List (List UInt8)) : (pushed (s :: strings)).length =
    s.length + 1 + (pushed strings).length := by
  rw [pushed, List.flatMap_cons, List.length_append, List.length_cons, List.length_reverse]
  rfl

theorem pushed_append : pushed (strings ++ strings') = pushed strings ++ pushed strings' := List.flatMap_append

theorem length_ptrs : (ptrs n strings).length = strings.length := by
  induction strings generalizing n with
  | nil => rfl
  | cons s strings ih => rw [ptrs, List.length_cons, ih, List.length_cons]

theorem ptrs_append : ptrs n (strings ++ strings') = ptrs n strings ++ ptrs (n + (pushed strings).length) strings' := by
  induction strings generalizing n with
  | nil => rfl
  | cons s strings ih => rw [List.cons_append, ptrs, ptrs, ih, pushed_cons, List.cons_append, Nat.add_assoc]

theorem ptrAtDepth_cases (h : ptrAtDepth len = .ok ptr) : ptr.toNat = stackBase - len ∧ len ≤ stackBase ∧ 0 < len ∧
    ptr = .ofNat (stackBase - len) := by
  obtain ⟨u, hle, h⟩ := bind_eq_ok.1 h
  obtain ⟨v, hlt, h⟩ := bind_eq_ok.1 h
  have hle := of_decide_eq_true (assert_cases hle)
  have hlt := of_decide_eq_true (assert_cases hlt)
  cases h
  unfold stackBase at *
  exact ⟨UInt32.toNat_ofNat_of_lt' hlt, hle, by omega, rfl⟩

theorem foldlM_pushString (h : strings.foldlM pushString st = .ok st') :
    st' = ⟨st.reversedData ++ pushed strings, st.stringPtrs ++ ptrs st.reversedData.length strings⟩ := by
  induction strings generalizing st with
  | nil =>
    cases h
    rw [ptrs, List.append_nil, pushed, List.flatMap_nil, List.append_nil]
  | cons s strings ih =>
    rw [List.foldlM_cons] at h
    obtain ⟨st₁, hpush, h⟩ := bind_eq_ok.1 h
    obtain ⟨ptr, hptr, hpush⟩ := bind_eq_ok.1 hpush
    cases hpush
    have hlength : (st.reversedData ++ 0 :: s.reverse).length = st.reversedData.length + (s.length + 1) := by
      rw [List.length_append, List.length_cons, List.length_reverse]
    rw [ih h, (ptrAtDepth_cases hptr).2.2.2, ptrs, hlength]
    simp only [pushed, List.flatMap_cons, List.append_assoc, List.cons_append, List.nil_append]

/-! ## What is in memory -/

/-- the data lies reversed below the end of memory, each part of it reversed -/
theorem load_segment (h : load m.bytes (stackBase - data.length) data.length = data.reverse)
    (hdata : data = pre ++ seg ++ post) (hle : data.length ≤ stackBase) :
    load m.bytes (stackBase - (pre.length + seg.length)) seg.length = seg.reverse := by
  have hlength : data.length = post.length + (seg.length + pre.length) := by
    rw [hdata, List.length_append, List.length_append]
    omega
  have hreverse : data.reverse = post.reverse ++ (seg.reverse ++ pre.reverse) := by
    rw [hdata, List.reverse_append, List.reverse_append]
  rw [hlength, load_add, load_add, ← hlength, hreverse] at h
  have hrest := (List.append_inj h (by rw [load_length, List.length_reverse])).2
  have hseg := (List.append_inj hrest (by rw [load_length, List.length_reverse])).1
  rwa [show stackBase - data.length + post.length = stackBase - (pre.length + seg.length) by omega] at hseg

/-- words that lie one behind the other -/
theorem loadWord_of_load (h : load m.bytes sp (4 * words.length) = words.flatMap leBytes) {i : ℕ} (hi : i < words.length) :
    loadWord m.bytes (sp + 4 * i) = words.getD i 0 := by
  induction words generalizing sp i with
  | nil => exact absurd hi (Nat.not_lt_zero i)
  | cons w words ih =>
    rw [List.length_cons, Nat.mul_succ, Nat.add_comm, load_add, List.flatMap_cons] at h
    obtain ⟨hfirst, hrest⟩ := List.append_inj h (by rw [load_length, leBytes_length])
    cases i with
    | zero =>
      rw [Nat.mul_zero, Nat.add_zero, loadWord, hfirst, leWord_leBytes]
      rfl
    | succ i =>
      rw [Nat.mul_succ, Nat.add_comm (4 * i), ← Nat.add_assoc, ih hrest (Nat.lt_of_succ_lt_succ hi)]
      rfl

/-- the strings and where they are: each is at its address, and takes up what is between the ones before it and after it -/
structure Copies (m : Mem) (n : ℕ) (strings : List (List UInt8)) : Prop where
  held : ∀ c ∈ (ptrs n strings).zip strings, load m.bytes c.1.toNat (c.2.length + 1) = c.2 ++ [0]
  bounds : ∀ c ∈ (ptrs n strings).zip strings, stackBase - (n + (pushed strings).length) ≤ c.1.toNat ∧
    c.1.toNat + (c.2.length + 1) ≤ stackBase - n
  apart : (((ptrs n strings).zip strings).map fun c => (⟨c.1.toNat, c.2.length + 1⟩ : Region)).Pairwise Region.Apart

theorem copies_of_load (h : load m.bytes (stackBase - data.length) data.length = data.reverse)
    (hdata : data = pre ++ pushed strings ++ post) (hle : data.length ≤ stackBase) : Copies m pre.length strings := by
  induction strings generalizing pre with
  | nil => exact ⟨fun c hc => absurd hc List.not_mem_nil, fun c hc => absurd hc List.not_mem_nil, List.Pairwise.nil⟩
  | cons s strings ih =>
    have hpush : pushed (s :: strings) = (0 :: s.reverse) ++ pushed strings := rfl
    have hfirst : data = pre ++ (0 :: s.reverse) ++ (pushed strings ++ post) := by
      rw [hdata, hpush]
      simp only [List.append_assoc]
    have hrest : data = (pre ++ 0 :: s.reverse) ++ pushed strings ++ post := by
      rw [hfirst]
      simp only [List.append_assoc]
    have hlength : (pre ++ 0 :: s.reverse).length = pre.length + (s.length + 1) := by
      rw [List.length_append, List.length_cons, List.length_reverse]
    have htotal : data.length = pre.length + (s.length + 1) + (pushed strings).length + post.length := by
      rw [hrest, List.length_append, List.length_append, hlength]
    have hcopies := ih hrest
    rw [hlength] at hcopies
    have hptr : (UInt32.ofNat (stackBase - (pre.length + (s.length + 1)))).toNat =
        stackBase - (pre.length + (s.length + 1)) := by
      refine UInt32.toNat_ofNat_of_lt' ?_
      unfold stackBase
      change _ < 2 ^ 32
      omega
    have hsegment := load_segment h hfirst hle
    rw [List.length_cons, List.length_reverse, List.reverse_cons, List.reverse_reverse] at hsegment
    have hpushed := pushed_cons s strings
    refine ⟨fun c hc => ?_, fun c hc => ?_, ?_⟩
    · rcases List.mem_cons.1 hc with rfl | hc
      · simp only [hptr]
        exact hsegment
      · exact hcopies.held c hc
    · rcases List.mem_cons.1 hc with rfl | hc
      · simp only [hptr]
        omega
      · have hbounds := hcopies.bounds c hc
        omega
    · refine List.Pairwise.cons (fun r hr => ?_) hcopies.apart
      obtain ⟨c, hc, rfl⟩ := List.mem_map.1 hr
      right
      simp only [hptr]
      exact (hcopies.bounds c hc).2

/-! ## The layout -/

section

variable {argv envp apple : List (List UInt8)} {mem mem' : Mem} {cpu cpu' : CpuContext}
  {copies : List (UInt32 × List UInt8)}

/-- the words of the table -/
def table (argv envp apple : List (List UInt8)) : List UInt32 :=
  .ofNat argv.length :: (ptrs 0 argv ++ (ptrs (pushed argv).length envp ++
    0 :: (ptrs (pushed (argv ++ envp)).length apple ++ [0])))

/-- all that is pushed -/
def image (argv envp apple : List (List UInt8)) : List UInt8 :=
  pushed (argv ++ (envp ++ apple)) ++ (List.replicate (padBy (pushed (argv ++ (envp ++ apple))).length) 0 ++
    (table argv envp apple).reverse.flatMap toBeBytes)

theorem padBy_lt (length : ℕ) : padBy length < 4 := by
  unfold padBy
  split_ifs <;> omega

theorem reverse_toBeBytes (words : List UInt32) : (words.reverse.flatMap toBeBytes).reverse = words.flatMap leBytes := by
  rw [List.reverse_flatMap, List.reverse_reverse]
  refine congrArg words.flatMap (funext fun w => ?_)
  exact List.reverse_reverse _

theorem length_flatMap_leBytes (words : List UInt32) : (words.flatMap leBytes).length = 4 * words.length := by
  induction words with
  | nil => rfl
  | cons w words ih =>
    rw [List.flatMap_cons, List.length_append, leBytes_length, ih, List.length_cons]
    omega

theorem length_toBeBytes (words : List UInt32) : (words.reverse.flatMap toBeBytes).length = 4 * words.length := by
  rw [← List.length_reverse, reverse_toBeBytes, length_flatMap_leBytes]

theorem length_table (argv envp apple : List (List UInt8)) : (table argv envp apple).length =
    argv.length + (envp.length + (apple.length + 1) + 1) + 1 := by
  simp only [table, List.length_cons, List.length_append, length_ptrs, List.length_nil]
  omega

theorem length_image (argv envp apple : List (List UInt8)) : (image argv envp apple).length =
    (pushed (argv ++ (envp ++ apple))).length +
    padBy (pushed (argv ++ (envp ++ apple))).length + 4 * (table argv envp apple).length := by
  rw [image, List.length_append, List.length_append, List.length_replicate, length_toBeBytes, Nat.add_assoc]

/-- the loop that turns the data round -/
theorem reversed_eq (data : List UInt8) :
    ((List.range data.length).map fun i => data.getD (data.length - i - 1) 0) = data.reverse := by
  refine List.ext_getElem (by rw [List.length_map, List.length_range, List.length_reverse]) fun i hi hi' => ?_
  rw [List.length_reverse] at hi'
  rw [List.getElem_map, List.getElem_range, List.getElem_reverse, List.getD_eq_getElem?_getD,
    List.getElem?_eq_getElem (by omega), Option.getD_some]
  congr 1
  omega

theorem image_of_pushAll (h : pushAll argv envp apple = .ok data) : data = image argv envp apple := by
  obtain ⟨u, -, h⟩ := bind_eq_ok.1 h
  obtain ⟨st₁, hargv, h⟩ := bind_eq_ok.1 h
  obtain ⟨st₂, henvp, h⟩ := bind_eq_ok.1 h
  obtain ⟨st₃, happle, h⟩ := bind_eq_ok.1 h
  obtain rfl := foldlM_pushString hargv
  obtain rfl := foldlM_pushString henvp
  obtain rfl := foldlM_pushString happle
  simp only [Pushed.terminate, List.nil_append, List.length_nil, ← pushed_append, List.append_assoc, List.cons_append] at h
  exact (Except.ok.inj h).symm

/-- what a call that returns has done -/
theorem prep_cases (h : prepStackForStart mem cpu argv envp apple = .ok (mem', cpu')) :
    (image argv envp apple).length < mainThreadStackSize ∧ (image argv envp apple).length % 4 = 0 ∧
      cpu'.regs.sp = stackBase - (image argv envp apple).length ∧
      load mem'.bytes cpu'.regs.sp (image argv envp apple).length = (image argv envp apple).reverse := by
  obtain ⟨data, hdata, h⟩ := bind_eq_ok.1 h
  rw [← image_of_pushAll hdata]
  obtain ⟨stackPtr, hptr, h⟩ := bind_eq_ok.1 h
  obtain ⟨u₁, -, h⟩ := bind_eq_ok.1 h
  obtain ⟨u₂, hheight, h⟩ := bind_eq_ok.1 h
  obtain ⟨u₃, -, h⟩ := bind_eq_ok.1 h
  obtain ⟨u₄, haligned, h⟩ := bind_eq_ok.1 h
  have hmem := congrArg Prod.fst (Except.ok.inj h)
  have hcpu := congrArg Prod.snd (Except.ok.inj h)
  simp only at hmem hcpu
  obtain ⟨hsp, -, -, -⟩ := ptrAtDepth_cases hptr
  have hsp' : cpu'.regs.sp = stackPtr.toNat := by
    rw [← hcpu, Abi.Regs.sp]
    simp [SP]
  refine ⟨of_decide_eq_true (assert_cases hheight), of_decide_eq_true (assert_cases haligned), hsp'.trans hsp, ?_⟩
  rw [hsp', ← hmem, reversed_eq]
  have hload := load_store (m := mem.bytes) (a := stackPtr.toNat) (l := data.reverse)
  rwa [List.length_reverse] at hload

/-- the pointers that go with the strings -/
theorem zip_ptrs : (ptrs 0 (argv ++ (envp ++ apple))).zip (argv ++ (envp ++ apple)) = (ptrs 0 argv).zip argv ++
    ((ptrs (pushed argv).length envp).zip envp ++ (ptrs (pushed (argv ++ envp)).length apple).zip apple) := by
  rw [ptrs_append, List.zip_append length_ptrs, ptrs_append, List.zip_append length_ptrs, Nat.zero_add, pushed_append,
    List.length_append]

theorem laidOutAt_of_prep (h : prepStackForStart mem cpu argv envp apple = .ok (mem', cpu')) :
    LaidOutAt mem' cpu'.regs.sp (table argv envp apple)
      ((ptrs 0 (argv ++ (envp ++ apple))).zip (argv ++ (envp ++ apple))) := by
  obtain ⟨hheight, -, hsp, hload⟩ := prep_cases h
  have hlength := length_image argv envp apple
  have hsize : mainThreadStackSize ≤ stackBase := by decide
  have hlow : mainThreadStackLowEnd = stackBase - mainThreadStackSize := rfl
  have hbase : stackBase = 2 ^ 32 := rfl
  rw [hsp] at hload
  have hstrings : image argv envp apple = [] ++ pushed (argv ++ (envp ++ apple)) ++ _ := rfl
  have hcopies := copies_of_load hload hstrings (hheight.le.trans hsize)
  rw [List.length_nil] at hcopies
  have hwords : load mem'.bytes cpu'.regs.sp (4 * (table argv envp apple).length) =
      (table argv envp apple).flatMap leBytes := by
    have hparts : image argv envp apple = (pushed (argv ++ (envp ++ apple)) ++
        List.replicate (padBy (pushed (argv ++ (envp ++ apple))).length) 0) ++
        (table argv envp apple).reverse.flatMap toBeBytes ++ [] := by
      rw [List.append_nil, List.append_assoc]
      rfl
    have hsegment := load_segment hload hparts (hheight.le.trans hsize)
    rwa [length_toBeBytes, reverse_toBeBytes, List.length_append, List.length_replicate, ← hlength, ← hsp] at hsegment
  refine ⟨fun i hi => loadWord_of_load hwords hi, hcopies.held, List.Pairwise.cons (fun r hr => ?_) hcopies.apart,
    fun r hr => ?_⟩
  · obtain ⟨c, hc, rfl⟩ := List.mem_map.1 hr
    have hbounds := hcopies.bounds c hc
    left
    simp only
    omega
  · rcases List.mem_cons.1 hr with rfl | hr
    · simp only
      omega
    · obtain ⟨c, hc, rfl⟩ := List.mem_map.1 hr
      have hbounds := hcopies.bounds c hc
      simp only
      omega

/-- two tables at the same address have the same words, as far as both go -/
theorem LaidOutAt.words_eq {m : Mem} {sp : ℕ} {words words' : List UInt32} {copies copies' : List (UInt32 × List UInt8)}
    (h : LaidOutAt m sp words copies) (h' : LaidOutAt m sp (words' ++ [ptr]) copies')
    (hlength : words.length = words'.length) : words = words' := by
  refine List.ext_getElem hlength fun i hi hi' => ?_
  have hword := h.table i hi
  have hword' := h'.table i (by rw [List.length_append]; omega)
  rw [List.getD_append _ _ _ _ hi', List.getD_eq_getElem _ _ hi'] at hword'
  rw [List.getD_eq_getElem _ _ hi] at hword
  exact hword.symm.trans hword'

/-- no string is at address zero -/
theorem ptr_ne_zero {m : Mem} {sp : ℕ} {words : List UInt32} {s : List UInt8}
    (h : LaidOutAt m sp words copies) (hc : (ptr, s) ∈ copies) : ptr ≠ 0 := by
  have hinside : mainThreadStackLowEnd ≤ ptr.toNat := (h.inside _ (List.mem_cons_of_mem _ (List.mem_map_of_mem hc))).1
  intro hzero
  rw [hzero] at hinside
  exact absurd hinside (by decide)

/-- without environment there is no room for another null pointer: it would lie where the last string begins, or beyond
memory -/
theorem no_room {words : List UInt32}
    (h : prepStackForStart mem cpu argv [] [] = .ok (mem', cpu')) (hlaidOut : LaidOutAt mem' cpu'.regs.sp words copies)
    (hwords : words.length = argv.length + 4) (hcopies : ∀ c ∈ (ptrs 0 argv).zip argv, c ∈ copies) : False := by
  obtain ⟨hheight, -, hsp, -⟩ := prep_cases h
  have hlength := length_image argv [] []
  have hpad := padBy_lt (pushed argv).length
  have hbase : stackBase = 2 ^ 32 := rfl
  rw [List.append_nil, List.append_nil, length_table, List.length_nil] at hlength
  have hinside := (hlaidOut.inside _ List.mem_cons_self).2
  simp only [hwords] at hinside
  rcases List.eq_nil_or_concat argv with hnone | hsome
  · subst hnone
    have hempty : (pushed []).length = 0 := rfl
    rw [List.length_nil] at hlength hinside
    omega
  · obtain ⟨init, s, hsome⟩ := hsome
    rw [List.concat_eq_append] at hsome
    have hpushed : (pushed argv).length = (pushed init).length + (s.length + 1) := by
      rw [hsome, pushed_append, List.length_append, pushed_cons]
      rfl
    have hptr : (UInt32.ofNat (stackBase - (pushed argv).length)).toNat = stackBase - (pushed argv).length := by
      refine UInt32.toNat_ofNat_of_lt' ?_
      change _ < 2 ^ 32
      omega
    have hlast : (UInt32.ofNat (stackBase - (pushed argv).length), s) ∈ (ptrs 0 argv).zip argv := by
      have hptrs : ptrs 0 argv = ptrs 0 init ++ [.ofNat (stackBase - (pushed argv).length)] := by
        rw [hpushed, hsome, ptrs_append, ptrs, ptrs, Nat.zero_add]
      have hzip : (ptrs 0 argv).zip argv = (ptrs 0 init).zip init ++ [(.ofNat (stackBase - (pushed argv).length), s)] := by
        rw [hptrs, hsome, List.zip_append length_ptrs]
        rfl
      rw [hzip]
      exact List.mem_append_right _ List.mem_cons_self
    have hapart := (List.pairwise_cons.1 hlaidOut.apart).1 _ (List.mem_map_of_mem (hcopies _ hlast))
    simp only [Region.Apart, hwords, hptr] at hapart
    omega

theorem not_laidOut (hprep : prepStackForStart mem cpu argv envp apple = .ok (mem', cpu')) :
    ¬LaidOut [0] mem' cpu' argv envp apple := by
  intro hlayout
  obtain ⟨-, argvPtrs, envpPtrs, applePtrs, hargv, henvp, happle, hexpected⟩ := hlayout
  have hactual := laidOutAt_of_prep hprep
  have htable : ∀ a e p : List UInt32, UInt32.ofNat argv.length :: (a ++ ([0] ++ (e ++ 0 :: (p ++ [0])))) =
      UInt32.ofNat argv.length :: (a ++ 0 :: (e ++ 0 :: p)) ++ [0] := by
    intro a e p
    simp only [List.cons_append, List.append_assoc, List.nil_append]
  rw [htable] at hexpected
  have hwords := hactual.words_eq hexpected (by
    rw [length_table]
    simp only [List.length_cons, List.length_append]
    omega)
  obtain ⟨hptrs, hrest⟩ := List.append_inj (List.cons.inj hwords).2 (by rw [length_ptrs, hargv])
  rw [zip_ptrs] at hactual
  -- the word behind the arguments is the first pointer to the environment or the null pointer behind it
  cases envp with
  | cons s envp =>
    rw [ptrs, List.cons_append] at hrest
    exact ptr_ne_zero hactual (List.mem_append_right _ (List.mem_append_left _ List.mem_cons_self)) (List.cons.inj hrest).1
  | nil =>
    obtain rfl : envpPtrs = [] := List.length_eq_zero_iff.1 henvp
    rw [ptrs, List.nil_append, List.nil_append] at hrest
    have hrest := (List.cons.inj hrest).2
    cases apple with
    | cons s apple =>
      rw [List.append_nil, ptrs, List.cons_append] at hrest
      rw [List.append_nil] at hactual
      exact ptr_ne_zero hactual (List.mem_append_right _ (List.mem_append_right _ List.mem_cons_self))
        (List.cons.inj hrest).1
    | nil =>
      obtain rfl : applePtrs = [] := List.length_eq_zero_iff.1 happle
      refine no_room hprep hexpected ?_ fun c hc => List.mem_append_left _ (hptrs ▸ hc)
      simp only [List.length_cons, List.length_append, List.length_nil, hargv]

/-- **The layout that `main` expects** has a null pointer behind the arguments, and is never there. -/
theorem layout_never (mem : Mem) (cpu : CpuContext) (argv envp apple : List (List UInt8)) :
    ¬∃ mem' cpu', prepStackForStart mem cpu argv envp apple = .ok (mem', cpu') ∧ LaidOut [0] mem' cpu' argv envp apple := by
  intro hlayout
  obtain ⟨mem', cpu', hprep, hlaidOut⟩ := hlayout
  exact not_laidOut hprep hlaidOut

/-- the program `a` with `b` in its environment -/
theorem layout_a : (prepStackForStart ⟨fun _ => 0, 0x1000⟩ .new [[97]] [[98]] []).toOption.isSome = true ∧
    ¬∃ mem' cpu', prepStackForStart ⟨fun _ => 0, 0x1000⟩ .new [[97]] [[98]] [] = .ok (mem', cpu') ∧
      LaidOut [0] mem' cpu' [[97]] [[98]] [] := by
  refine ⟨by decide +kernel, ?_⟩
  intro hlayout
  obtain ⟨mem', cpu', hprep, hlaidOut⟩ := hlayout
  exact not_laidOut hprep hlaidOut

end

end TouchHLE.MainStack
