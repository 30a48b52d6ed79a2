/-
The ways the modelled code can panic, and the checks that make it panic. Every assertion of the source is a `Panic` of
its own. Where the source adds or subtracts machine integers without a check of its own, the model stops with
`Panic.overflow`, as a build with overflow checks does.
-/
import Mathlib.Tactic

namespace TouchHLE

inductive Panic where
  /-- `Chunk::new`: a chunk of a page or more that does not start at a page boundary -/
  | misaligned
  /-- `Chunk::new`: the size is zero -/
  | emptyChunk
  /-- `ChunkMap::insert`: the base is already a key -/
  | duplicateKey
  /-- `SizeBucketedChunkMap`: a size below the minimum -/
  | chunkTooSmall
  /-- `remove_from_bucket`: the chunk is not in its bucket -/
  | notInBucket
  /-- `remove_from_bucket`, `allocate_in_bucket`: the two indexes hold different chunks -/
  | indexMismatch
  /-- `allocate_in_bucket`: the checks of the re-alignment split -/
  | realign
  /-- a sum that does not fit in 32 bits -/
  | overflow
  /-- `reserve`: no unused chunk contains the range -/
  | couldNotReserve
  /-- `alloc`: no unused chunk is large enough -/
  | outOfMemory
  /-- `find_allocated_size`: not an allocation -/
  | unknownAllocation
  /-- `Mem::bytes_at`: an address inside the null segment -/
  | nullPage
  /-- `Mem::bytes_at`: a slice that leaves the 4 GiB -/
  | sliceRange
  /-- `Ptr`: checked pointer arithmetic, or a count that does not fit in 32 bits -/
  | pointer
  /-- `read_next_arg`, `write_next_arg`: more than the 16 words of the array of fake registers -/
  | fakeRegs
  /-- `todo!()` -/
  | todo
  /-- an index that is out of bounds -/
  | index
  /-- `switch_thread`: the thread is the current one already -/
  | switchToSelf
  /-- `switch_thread`, `run_inner`: a saved context that is missing or should be -/
  | context
  /-- `run_inner`: the initial thread is not active -/
  | inactive
  /-- `run_call`: the thread that returned is not the one that called -/
  | wrongThread
  /-- `block_on_mutex` and its like: the thread is blocked already -/
  | alreadyBlocked
  /-- `new_thread`: the top of the stack is not a multiple of four -/
  | stackAlignment
  /-- no mutex of that id -/
  | noMutex
  /-- a mutex that is not error-checking is locked again by its owner, or unlocked by another thread -/
  | mutexMisuse
  /-- no open semaphore at that address -/
  | noSemaphore
  /-- `sem_destroy`, `sem_close`: a named semaphore where there must be an unnamed one, or the other way round -/
  | semaphoreKind
  /-- no condition variable at that address, or none of its fields where there must be one -/
  | noCondition
  /-- `pthread_cond_wait`: the mutex was not unlocked, or another one is waited with -/
  | condMutex
  /-- `pthread_cond_destroy`: a thread still waits -/
  | condBusy
  /-- `pthread_cond_init`: the address is in use -/
  | condExists
  /-- a thread exit outside a start routine, or a second one -/
  | threadExit
  /-- `SVC_RETURN_TO_HOST` in the root run loop -/
  | rootReturn
  /-- a finished thread without a return value -/
  | noReturnValue
  /-- the scheduler has no thread to run -/
  | deadlock
  /-- `timestamp_to_calendar_date`: a day after the end of its year or month -/
  | dayRange
  /-- `try_into().unwrap()`: a value that does not fit -/
  | conversion
  /-- `str_to_int_inner_generic`, `is_digit`: a base that is not between 2 and 36 -/
  | base
  /-- `str_to_int_inner_generic`: the digits are not as many as the length says -/
  | digitCount
  /-- `open`: flags that are not supported -/
  | openFlags
  /-- `socket`: a domain, type or protocol that is not supported -/
  | socketKind
  /-- no socket of that descriptor, or one of another type -/
  | noSocket
  /-- a new descriptor that the socket table has already -/
  | socketExists
  /-- a socket that has a host socket where it must have none, or none where it must have one -/
  | hostSocket
  /-- a null pointer or a wrong length in the arguments of `accept` -/
  | addressArgs
  /-- a directory or a socket that is read or sought in like a file -/
  | notAFile
  /-- the stdio functions: EOF is pushed back, seeking fails, or a `whence` that is none -/
  | streamArgs
  /-- `printf_inner`: a combination of flags, width and precision that is not supported -/
  | formatFlags
  /-- `printf_inner`: a negative '*' -/
  | negativeStar
  /-- `sscanf_common_generic`: the end of a stream where a character is needed -/
  | endOfInput
  /-- `sscanf_common_generic`: a width, length modifier or set that is not supported -/
  | scanFlags
  /-- `read_packet`: the connection to the debugger is lost -/
  | lostConnection
  /-- `read_packet`: something other than '$' or '+' where a packet must begin -/
  | packetStart
  /-- `read_packet`: the buffer is full and there is no end of a packet in it -/
  | packetEnd
  /-- `read_packet`: the checksum is not that of the body -/
  | checksum
  /-- `from_utf8().unwrap()`: bytes that are not UTF-8 -/
  | utf8
  /-- `to_rust_string`: an unpaired surrogate -/
  | utf16
  /-- `unwrap()` of an entry that is not there -/
  | missing
  /-- a stub, or a section of stubs or of pointers, that is not what it must be -/
  | stub
  /-- `encode_a32_svc`: more SVC numbers than there are -/
  | svcRange
  /-- `do_lazy_link`: a function that neither the host nor a binary has -/
  | unimplementedFunction
  /-- a class list or an ivar list whose sizes are wrong -/
  | classList
  /-- `objc_msgSend`: the class of the receiver, or the class of a super-call, is nil -/
  | nilClass
  /-- `objc_msgSend`: the receiver does not respond to the selector -/
  | doesNotRespond
  /-- `objc_msgSend`: the types of the message are not those of the method -/
  | typeMismatch
  /-- `objc_msgSend`: a message to an unimplemented class -/
  | unimplementedClass
  /-- `objc_msgSend`, `borrow`: a host object of another type -/
  | hostObject
  /-- `increment_refcount`, `decrement_refcount`: an object without a reference count -/
  | refcount
  /-- `NSAutoreleasePool`: a pool that is drained on another thread -/
  | poolThread
  /-- `NSAutoreleasePool`: a pool that is drained and not on the stack -/
  | badPool
  /-- `parse_nib_archive`: data that is no NIBArchive -/
  | badArchive
  /-- `get_known_class`: a class that there is not -/
  | unknownClass
  /-- `prime_audio_queue`: more buffers at the source than there are in the queue -/
  | audioQueue
  /-- `addTimer:forMode:`, `remove_timer`: a timer that is in the list already, or not once -/
  | timerList
  /-- `FsNodeBuilder`: a path with "..", one that leads through a file, or a file without a directory -/
  | archivePath
  /-- `dealloc`: a view or a layer that still has a parent -/
  | hasParent
  /-- `resolve_path`: a relative path, and no absolute one that it is relative to -/
  | relativePath
  /-- `enumerate_recursive`: a stack that is not empty at the end -/
  | stacksLeft
  /-- `open_with_options`, `rename`: options that exclude each other, or a file that is read-only -/
  | openOptions
  /-- `handle_open_err`: the host refuses -/
  | hostError
  /-- the handlers of touches: a phase that is not the expected one -/
  | touchPhase
  /-- `handle_touches_down`: a finger that is down already, and not alone -/
  | currentTouches
  /-- an object that was deallocated is used -/
  | deallocated
  /-- `_touchHLE_NSThreadInvocationHelper`, `start`: an entry for the thread that is missing or should be -/
  | nsThread
  /-- `setObject:forKey:`, `removeObjectForKey:`: nil -/
  | nilArgument
  /-- `translate_fixed_point_arrays`: a buffer that cannot be mapped -/
  | mapBuffer
  /-- the calls of OpenGL: an argument that is not supported -/
  | glArgument
  /-- `copy_from_slice`: the slices have different lengths -/
  | sliceLength
  /-- `strcpy`: the buffer is too small -/
  | bufferOverrun
  /-- `decode`, `data_using_encoding_lossy_inner`: an encoding that is not supported, or a text that is not in it -/
  | encoding
  /-- `compare:options:`: a code unit that is no character -/
  | invalidChars
  /-- `componentsSeparatedByString:` and its like: an empty string is searched for -/
  | emptySeparator
  /-- `prep_stack_for_start`: more data than there is room on the stack -/
  | stackHeight
  /-- `wait_for_debugger`: a packet that is malformed, or sent where it cannot be -/
  | packetBody
  /-- `wait_for_debugger`: the debugger asks to be rid of the program -/
  | killed
  /-- `decode_buffer`: a format that is not supported, or a length that does not fit it -/
  | audioFormat
  /-- `transform_for_conversion`: two layers without a common ancestor, or no layer at all -/
  | commonAncestor
  /-- `functionWithName:`: a name that there is not -/
  | functionName
  /-- a division by zero -/
  | divisionByZero
  /-- `unreachable!()` -/
  | unreachable
  /-- `unimplemented!()` -/
  | unimplemented
  /-- not a panic of the source: a recursion that is deeper than the model follows it -/
  | tooDeep
  /-- not a panic of the source: a step that is not possible in the state -/
  | notEnabled
deriving DecidableEq, Repr

/-- a sum of two `u32` -/
def add32 (a b : ℕ) : Except Panic ℕ := if a + b < 2 ^ 32 then .ok (a + b) else .error .overflow

/-- a product of two `u32` -/
def mul32 (a b : ℕ) : Except Panic ℕ := if a * b < 2 ^ 32 then .ok (a * b) else .error .overflow

/-- a difference of two `u32` -/
def sub32 (a b : ℕ) : Except Panic ℕ := if b ≤ a then .ok (a - b) else .error .overflow

/-- the result of an `i32` operation -/
def i32 (x : ℤ) : Except Panic ℤ := if -2 ^ 31 ≤ x ∧ x < 2 ^ 31 then .ok x else .error .overflow

/-- the result of an `i64` operation -/
def i64 (x : ℤ) : Except Panic ℤ := if -2 ^ 63 ≤ x ∧ x < 2 ^ 63 then .ok x else .error .overflow

def assert (p : Bool) (e : Panic) : Except Panic Unit := if p then .ok () else .error e

/-- the value of an option that must have one -/
def unwrap {α : Type} (x : Option α) (e : Panic) : Except Panic α :=
  match x with
  | some a => .ok a
  | none => .error e

variable {a b : ℕ}

theorem add32_ok (h : a + b < 2 ^ 32) : add32 a b = .ok (a + b) := if_pos h

theorem mul32_ok (h : a * b < 2 ^ 32) : mul32 a b = .ok (a * b) := if_pos h

theorem sub32_ok (h : b ≤ a) : sub32 a b = .ok (a - b) := if_pos h

theorem add32_cases {a b c : ℕ} (h : add32 a b = .ok c) : c = a + b ∧ a + b < 2 ^ 32 := by
  unfold add32 at h
  split_ifs at h with hlt
  exact ⟨(Except.ok.inj h).symm, hlt⟩

theorem mul32_cases {a b c : ℕ} (h : mul32 a b = .ok c) : c = a * b ∧ a * b < 2 ^ 32 := by
  unfold mul32 at h
  split_ifs at h with hlt
  exact ⟨(Except.ok.inj h).symm, hlt⟩

theorem i32_ok {x : ℤ} (h : -2 ^ 31 ≤ x) (h' : x < 2 ^ 31) : i32 x = .ok x := if_pos ⟨h, h'⟩

theorem i64_ok {x : ℤ} (h : -2 ^ 63 ≤ x) (h' : x < 2 ^ 63) : i64 x = .ok x := if_pos ⟨h, h'⟩

variable {e : Panic} {p : Bool}

theorem assert_ok (h : p = true) : assert p e = .ok () := if_pos h

theorem assert_eq_ok {u : Unit} : assert p e = .ok u ↔ p = true := by
  cases p <;> simp [assert]

theorem unwrap_eq_ok {α : Type} {x : Option α} {a : α} : unwrap x e = .ok a ↔ x = some a := by
  cases x <;> simp [unwrap]

theorem assert_cases {u : Unit} (h : assert p e = .ok u) : p = true := by
  unfold assert at h
  split_ifs at h with hp
  exact hp

end TouchHLE
