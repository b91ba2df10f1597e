/-
`RecvMesg` call by call. Each `recv` writes behind what the ones before it
wrote and asks for the room left in the buffer; what it returns is the
kernel's to choose, at every call, as long as it reads no more than was asked
for.

`read_exactly`: no call goes past the buffer's end or asks for nothing, the
loop ends, and what `RecvMesg` returns is told by the calls it made.
`RecvMesg_chunks` brings this to the `RecvMesg` of `NetChat.Stream`, whose loop
is given the chunks read.
-/
import NetChat.Stream

namespace NetChat

/-! ## The kernel's answers -/

/-- `errno.h` of Linux, where the two are one number. -/
def EAGAIN : Int32 := 11
def EWOULDBLOCK : Int32 := 11

/-- What a `recv` returns: -1 and an `errno`, or a count and that many bytes. -/
inductive RecvRet
  | error (errno : Int32)
  | read (b : Bytes)
  deriving DecidableEq

namespace RecvRet

/-- Nothing to read for now. -/
def Again (ret : RecvRet) : Prop := ret = error EAGAIN ∨ ret = error EWOULDBLOCK

/-- Any other error. -/
def Failed (ret : RecvRet) : Prop := ∃ errno, ret = error errno ∧ ¬ ret.Again

/-- What the call put into the buffer. -/
def bytes : RecvRet → Bytes
  | error _ => []
  | read b => b

@[simp] theorem not_again_read (b : Bytes) : ¬ (read b).Again := by rintro (h | h) <;> cases h

@[simp] theorem not_failed_read (b : Bytes) : ¬ (read b).Failed := by
  rintro ⟨_, h, _⟩
  cases h

theorem failed_error {errno : Int32} : (error errno).Failed ↔ ¬ (error errno).Again :=
  ⟨fun ⟨_, _, h⟩ => h, fun h => ⟨errno, rfl, h⟩⟩

instance (ret : RecvRet) : Decidable ret.Again := inferInstanceAs (Decidable (_ ∨ _))

instance : (ret : RecvRet) → Decidable ret.Failed
  | error _ => decidable_of_iff _ failed_error.symm
  | read b => isFalse (not_failed_read b)

end RecvRet

/-- The socket's side of the calls: what the `i`-th one returns when it asks
for `size` bytes. -/
structure Kernel where
  recv : Nat → Nat → RecvRet
  fits : ∀ i size b, recv i size = .read b → b.length ≤ size

/-! ## RecvMesg -/

/-- A `recv` of the loop: where in `buf` it writes, what it asks for, and what it
returned. -/
structure RecvCall where
  offset : Nat
  size : Nat
  ret : RecvRet

/-- The memory from the buffer's first byte on. -/
abbrev Memory := Nat → UInt8

/-- `recv` writing to `buf + offset`. -/
def Memory.write (buf : Memory) (offset : Nat) (b : Bytes) : Memory := fun j =>
  if offset ≤ j ∧ j < offset + b.length then b.getD (j - offset) 0 else buf j

/-- The first `n` bytes. -/
def Memory.prefixOf (buf : Memory) (n : Nat) : Bytes := (List.range n).map buf

/-- `kMaxMessageSize - bytes`, an `int`, as the `size_t` that `recv` takes. -/
def room (bytes : Nat) : Nat := (((kMaxMessageSize : Int) - bytes) % 2 ^ 64).toNat

/-- What the loop did: its calls, and where it broke off the buffer and `bytes`,
`none` where it returned -1. -/
structure LoopOut where
  calls : List RecvCall
  left : Option (Memory × Nat)

/-- The loop of `RecvMesg`, `i` calls having been made. -/
def Kernel.loop (k : Kernel) (buf : Memory) (bytes i : Nat) : LoopOut :=
  let ret := k.recv i (room bytes)
  let call : RecvCall := ⟨bytes, room bytes, ret⟩
  match ret with
  | .error errno =>
    if errno = EAGAIN ∨ errno = EWOULDBLOCK then ⟨[call], some (buf, bytes)⟩
    else ⟨[call], none⟩
  | .read b =>
    if b.length = 0 then ⟨[call], some (buf, bytes)⟩
    else if kMaxMessageSize ≤ bytes + b.length then ⟨[call], none⟩
    else
      let out := k.loop (buf.write bytes b) (bytes + b.length) (i + 1)
      ⟨call :: out.calls, out.left⟩
termination_by kMaxMessageSize - bytes

/-- What `RecvMesg` did: the calls it made, the value it returned, and the packet
parsed when that is not -1. -/
structure Received where
  calls : List RecvCall
  ret : Int
  msg : Option Packet

/-- `RecvMesg` with what its buffer holds before. -/
def Kernel.RecvMesg (k : Kernel) (parse : Bytes → Option Packet) (buf : Memory) : Received :=
  let out := k.loop buf 0 0
  match out.left with
  | none => ⟨out.calls, -1, none⟩
  | some (buf, bytes) =>
    match parse (buf.prefixOf bytes) with
    | none => ⟨out.calls, -1, none⟩
    | some msg => ⟨out.calls, bytes, some msg⟩

/-! ## The buffer -/

theorem room_eq {bytes : Nat} (h : bytes < kMaxMessageSize) : room bytes = kMaxMessageSize - bytes := by
  have hmax : kMaxMessageSize = 1048576 := rfl
  rw [room, Int.emod_eq_of_lt (by omega) (by omega)]
  omega

@[simp] theorem Memory.prefixOf_zero (buf : Memory) : buf.prefixOf 0 = [] := rfl

/-- Writing behind a prefix appends to it. -/
theorem Memory.prefixOf_write (buf : Memory) (n : Nat) (b : Bytes) :
    (buf.write n b).prefixOf (n + b.length) = buf.prefixOf n ++ b := by
  rw [prefixOf, List.range_add, List.map_append, List.map_map]
  congr 1
  · apply List.map_congr_left
    intro j hj
    have hlt : ¬ (n ≤ j ∧ j < n + b.length) := by
      rw [List.mem_range] at hj
      omega
    exact if_neg hlt
  · apply List.ext_getElem
    · simp
    · intro j _ hj
      simp [write, hj]

/-! ## The loop -/

/-- The bytes the calls read, in order. -/
def collected (calls : List RecvCall) : Bytes := (calls.map fun c => c.ret.bytes).flatten

@[simp] theorem collected_cons (c : RecvCall) (calls : List RecvCall) :
    collected (c :: calls) = c.ret.bytes ++ collected calls := rfl

/-- The calls from the `i`-th on, `bytes` having been read: each is the kernel's
answer to a request for all the room there is behind what was read, all but the
last read something and leave room, and the last is none of these. -/
inductive Calls (k : Kernel) : Nat → Nat → List RecvCall → Prop
  | last {bytes i : Nat} (ret : RecvRet) (answer : k.recv i (room bytes) = ret)
      (stops : ret.bytes = [] ∨ kMaxMessageSize ≤ bytes + ret.bytes.length) :
      Calls k bytes i [⟨bytes, room bytes, ret⟩]
  | more {bytes i : Nat} {calls : List RecvCall} (b : Bytes) (answer : k.recv i (room bytes) = .read b)
      (some : b ≠ []) (rest : bytes + b.length < kMaxMessageSize) (next : Calls k (bytes + b.length) (i + 1) calls) :
      Calls k bytes i (⟨bytes, room bytes, .read b⟩ :: calls)

/-- How the loop left with these calls. -/
inductive Left (buf : Memory) (bytes : Nat) (calls : List RecvCall) : Option (Memory × Nat) → Prop
  | failed (failed : ∃ c ∈ calls, c.ret.Failed) : Left buf bytes calls none
  | tooLarge (full : kMaxMessageSize ≤ bytes + (collected calls).length) : Left buf bytes calls none
  | broke (buf' : Memory) (noError : ∀ c ∈ calls, ¬ c.ret.Failed)
      (room : bytes + (collected calls).length < kMaxMessageSize)
      (holds : buf'.prefixOf (bytes + (collected calls).length) = buf.prefixOf bytes ++ collected calls) :
      Left buf bytes calls (some (buf', bytes + (collected calls).length))

theorem Left.cons {buf : Memory} {bytes : Nat} {b : Bytes} {c : RecvCall} {calls : List RecvCall}
    {left : Option (Memory × Nat)} (hc : c.ret = .read b)
    (h : Left (buf.write bytes b) (bytes + b.length) calls left) : Left buf bytes (c :: calls) left := by
  have hlen : bytes + b.length + (collected calls).length = bytes + (collected (c :: calls)).length := by
    rw [collected_cons, hc, List.length_append, Nat.add_assoc]
    rfl
  have hno : ¬ c.ret.Failed := by simp [hc]
  cases h with
  | failed failed =>
    obtain ⟨c', hc', hf⟩ := failed
    exact .failed ⟨c', List.mem_cons_of_mem _ hc', hf⟩
  | tooLarge full => exact .tooLarge (hlen ▸ full)
  | broke buf' noError room holds =>
    rw [hlen] at room holds ⊢
    refine .broke buf' (List.forall_mem_cons.mpr ⟨hno, noError⟩) room ?_
    rw [holds, Memory.prefixOf_write, collected_cons, hc, List.append_assoc]
    rfl

section
variable {k : Kernel} {buf : Memory} {bytes i : Nat}

theorem Kernel.loop_again {errno : Int32} (hret : k.recv i (room bytes) = .error errno)
    (h : errno = EAGAIN ∨ errno = EWOULDBLOCK) :
    k.loop buf bytes i = ⟨[⟨bytes, room bytes, .error errno⟩], some (buf, bytes)⟩ := by
  rw [loop]
  simp only [hret, if_pos h]

theorem Kernel.loop_failed {errno : Int32} (hret : k.recv i (room bytes) = .error errno)
    (h : ¬ (errno = EAGAIN ∨ errno = EWOULDBLOCK)) :
    k.loop buf bytes i = ⟨[⟨bytes, room bytes, .error errno⟩], none⟩ := by
  rw [loop]
  simp only [hret, if_neg h]

theorem Kernel.loop_closed {b : Bytes} (hret : k.recv i (room bytes) = .read b) (h : b.length = 0) :
    k.loop buf bytes i = ⟨[⟨bytes, room bytes, .read b⟩], some (buf, bytes)⟩ := by
  rw [loop]
  simp only [hret, if_pos h]

theorem Kernel.loop_tooLarge {b : Bytes} (hret : k.recv i (room bytes) = .read b) (h : ¬ b.length = 0)
    (hfull : kMaxMessageSize ≤ bytes + b.length) :
    k.loop buf bytes i = ⟨[⟨bytes, room bytes, .read b⟩], none⟩ := by
  rw [loop]
  simp only [hret, if_neg h, if_pos hfull]

theorem Kernel.loop_more {b : Bytes} (hret : k.recv i (room bytes) = .read b) (h : ¬ b.length = 0)
    (hfull : ¬ kMaxMessageSize ≤ bytes + b.length) :
    k.loop buf bytes i = ⟨⟨bytes, room bytes, .read b⟩ :: (k.loop (buf.write bytes b) (bytes + b.length) (i + 1)).calls,
      (k.loop (buf.write bytes b) (bytes + b.length) (i + 1)).left⟩ := by
  rw [loop]
  simp only [hret, if_neg h, if_neg hfull]

end

/-- A loop broken off at once holds what it held. -/
theorem Left.broke_first {buf : Memory} {bytes : Nat} {c : RecvCall} (h : bytes < kMaxMessageSize)
    (hno : ¬ c.ret.Failed) (hnone : c.ret.bytes = []) : Left buf bytes [c] (some (buf, bytes)) := by
  have hcollected : collected [c] = [] := by rw [collected_cons, hnone]; rfl
  have hlen : bytes + (collected [c]).length = bytes := by rw [hcollected]; rfl
  have hbroke : Left buf bytes [c] (some (buf, bytes + (collected [c]).length)) :=
    .broke buf (by simpa using hno) (by rw [hlen]; exact h) (by rw [hlen, hcollected, List.append_nil])
  rwa [hlen] at hbroke

/-- The loop makes calls as it should and leaves as these tell. -/
theorem Kernel.loop_spec (k : Kernel) (buf : Memory) (bytes i : Nat) (h : bytes < kMaxMessageSize) :
    Calls k bytes i (k.loop buf bytes i).calls ∧
      Left buf bytes (k.loop buf bytes i).calls (k.loop buf bytes i).left := by
  induction buf, bytes, i using Kernel.loop.induct k with
  | case1 buf bytes i ret errno hret hagain =>
    rw [loop_again hret hagain]
    have hno : ¬ (RecvRet.error errno).Failed := by
      rw [RecvRet.failed_error, not_not]
      exact hagain.imp (congrArg _) (congrArg _)
    exact ⟨.last _ hret (.inl rfl), .broke_first h hno rfl⟩
  | case2 buf bytes i ret errno hret hagain =>
    rw [loop_failed hret hagain]
    have hfailed : (RecvRet.error errno).Failed := by
      rw [RecvRet.failed_error]
      exact fun hor => hagain (hor.imp RecvRet.error.inj RecvRet.error.inj)
    exact ⟨.last _ hret (.inl rfl), .failed ⟨_, List.mem_cons_self, hfailed⟩⟩
  | case3 buf bytes i ret b hret hz =>
    rw [loop_closed hret hz]
    have hnone : b = [] := List.length_eq_zero_iff.mp hz
    exact ⟨.last _ hret (.inl hnone), .broke_first h (RecvRet.not_failed_read b) hnone⟩
  | case4 buf bytes i ret b hret hz hfull =>
    rw [loop_tooLarge hret hz hfull]
    refine ⟨.last _ hret (.inr hfull), .tooLarge ?_⟩
    rwa [collected_cons, collected, List.map_nil, List.flatten_nil, List.append_nil]
  | case5 buf bytes i ret b hret hz hfull ih =>
    rw [loop_more hret hz hfull]
    have hlt : bytes + b.length < kMaxMessageSize := by omega
    obtain ⟨hcalls, hleft⟩ := ih hlt
    exact ⟨.more b hret (fun hb => hz (by rw [hb]; rfl)) hlt hcalls, hleft.cons rfl⟩

/-! ## The calls -/

namespace Calls

variable {k : Kernel} {bytes i : Nat} {calls : List RecvCall}

theorem answered (h : Calls k bytes i calls) : ∀ j c, calls[j]? = some c → c.ret = k.recv (i + j) c.size := by
  induction h with
  | last ret answer stops =>
    intro j c hc
    cases j with
    | zero => cases hc; exact answer.symm
    | succ j => cases hc
  | @more bytes i calls b answer some rest next ih =>
    intro j c hc
    cases j with
    | zero => cases hc; exact answer.symm
    | succ j =>
      rw [← Nat.succ_add_eq_add_succ]
      exact ih j c hc

/-- Every call asks for all that the buffer has left, and there is some. -/
theorem inside (h : Calls k bytes i calls) (hlt : bytes < kMaxMessageSize) :
    ∀ c ∈ calls, 1 ≤ c.size ∧ c.offset + c.size ≤ kMaxMessageSize := by
  induction h with
  | last ret answer stops =>
    intro c hc
    rw [List.mem_singleton] at hc
    subst hc
    dsimp only
    rw [room_eq hlt]
    omega
  | more b answer some rest next ih =>
    intro c hc
    rcases List.mem_cons.mp hc with rfl | hc
    · dsimp only
      rw [room_eq hlt]
      omega
    · exact ih rest c hc

/-- Every call but the last reads a byte at least, of those there is room for. -/
theorem few (h : Calls k bytes i calls) (hlt : bytes < kMaxMessageSize) : bytes + calls.length ≤ kMaxMessageSize := by
  induction h with
  | last ret answer stops => exact hlt
  | more b answer some rest next ih =>
    have hpos := List.length_pos_iff.mpr some
    have hnext := ih rest
    rw [List.length_cons]
    omega

/-- The last call is the one that ends the loop. -/
theorem reads_last (h : Calls k bytes i calls) : ∃ reads last, calls = reads ++ [last] ∧
    (∀ c ∈ reads, c.ret.bytes ≠ []) ∧
    (last.ret.bytes = [] ∨ kMaxMessageSize ≤ bytes + (collected calls).length) := by
  induction h with
  | @last bytes i ret answer stops =>
    refine ⟨[], ⟨bytes, room bytes, ret⟩, rfl, by simp, stops.imp_right fun hfull => ?_⟩
    rwa [collected_cons, collected, List.map_nil, List.flatten_nil, List.append_nil]
  | @more bytes i calls b answer some rest next ih =>
    obtain ⟨reads, last, rfl, hreads, hlast⟩ := ih
    refine ⟨⟨bytes, room bytes, .read b⟩ :: reads, last, rfl, List.forall_mem_cons.mpr ⟨some, hreads⟩, ?_⟩
    rwa [collected_cons, List.length_append, ← Nat.add_assoc]

end Calls

/-! ## What RecvMesg returns -/

/-- What `RecvMesg` makes of the bytes its calls read, once the loop broke off. -/
def parseCollected (parse : Bytes → Option Packet) (calls : List RecvCall) : Received :=
  match parse (collected calls) with
  | none => ⟨calls, -1, none⟩
  | some msg => ⟨calls, (collected calls).length, some msg⟩

theorem parseCollected_failed (parse : Bytes → Option Packet) (calls : List RecvCall) :
    (parseCollected parse calls).ret = -1 ↔ parse (collected calls) = none := by
  unfold parseCollected
  split
  · rename_i h
    simp [h]
  · rename_i msg h
    simp only [h, reduceCtorEq]

theorem parseCollected_exactly {parse : Bytes → Option Packet} {calls : List RecvCall}
    (h : (parseCollected parse calls).ret ≠ -1) : (parseCollected parse calls).ret = (collected calls).length ∧
      ∃ msg, (parseCollected parse calls).msg = some msg ∧ parse (collected calls) = some msg := by
  cases hparse : parse (collected calls) with
  | none => exact absurd ((parseCollected_failed parse calls).mpr hparse) h
  | some msg =>
    rw [parseCollected, hparse]
    exact ⟨rfl, msg, rfl, rfl⟩

section
variable (k : Kernel) (parse : Bytes → Option Packet) (buf : Memory)

/-- The calls of `RecvMesg`. -/
theorem Kernel.RecvMesg_calls : Calls k 0 0 (k.RecvMesg parse buf).calls := by
  have hcalls := (k.loop_spec buf 0 0 (by decide)).1
  unfold RecvMesg
  dsimp only
  split
  · exact hcalls
  · split <;> exact hcalls

/-- Either the loop returned -1, after an error or with the buffer full, or it broke
off without either, and what was read is parsed. -/
theorem Kernel.RecvMesg_cases :
    (((∃ c ∈ (k.RecvMesg parse buf).calls, c.ret.Failed) ∨
        kMaxMessageSize ≤ (collected (k.RecvMesg parse buf).calls).length) ∧
      (k.RecvMesg parse buf).ret = -1 ∧ (k.RecvMesg parse buf).msg = none) ∨
    ((∀ c ∈ (k.RecvMesg parse buf).calls, ¬ c.ret.Failed) ∧
      (collected (k.RecvMesg parse buf).calls).length < kMaxMessageSize ∧
      k.RecvMesg parse buf = parseCollected parse (k.RecvMesg parse buf).calls) := by
  have hleft := (k.loop_spec buf 0 0 (by decide)).2
  unfold RecvMesg
  dsimp only
  generalize (k.loop buf 0 0).calls = calls at hleft
  generalize (k.loop buf 0 0).left = left at hleft
  cases hleft with
  | failed failed => exact .inl ⟨.inl failed, rfl, rfl⟩
  | tooLarge full => exact .inl ⟨.inr (by rwa [Nat.zero_add] at full), rfl, rfl⟩
  | broke buf' noError room holds =>
    rw [Nat.zero_add] at room holds
    rw [Memory.prefixOf_zero, List.nil_append] at holds
    right
    simp only [Nat.zero_add, holds]
    cases hparse : parse (collected calls) with
    | none => exact ⟨noError, room, by rw [parseCollected, hparse]⟩
    | some msg => exact ⟨noError, room, by rw [parseCollected, hparse]⟩

end

/-- `RecvMesg` reads with care and returns what its calls tell: each is the kernel's
next answer, asks for a byte at least and not past the buffer's end, and there are
not many of them; -1 is returned when one met an error, or the buffer is full, or
what was read does not parse; else all there was before the call that found no
more is counted and parsed. -/
structure ReadExactly (k : Kernel) (parse : Bytes → Option Packet) (out : Received) : Prop where
  answered : ∀ j c, out.calls[j]? = some c → c.ret = k.recv j c.size
  asks : ∀ c ∈ out.calls, 1 ≤ c.size
  inside : ∀ c ∈ out.calls, c.offset + c.size ≤ kMaxMessageSize
  few : out.calls.length ≤ kMaxMessageSize + 1
  failed : out.ret = -1 ↔ (∃ c ∈ out.calls, c.ret.Failed) ∨ kMaxMessageSize ≤ (collected out.calls).length ∨
    parse (collected out.calls) = none
  exactly : out.ret ≠ -1 → out.ret = (collected out.calls).length ∧ ∃ msg, out.msg = some msg ∧
    parse (collected out.calls) = some msg
  stopped : out.ret ≠ -1 → ∃ reads last, out.calls = reads ++ [last] ∧ (∀ c ∈ reads, c.ret.bytes ≠ []) ∧
    (last.ret.Again ∨ last.ret = .read [])

/-- A call that reads nothing and meets no error finds no more. -/
theorem RecvRet.stops {ret : RecvRet} (hno : ¬ ret.Failed) (hnone : ret.bytes = []) : ret.Again ∨ ret = .read [] := by
  cases ret with
  | error errno => exact .inl (Decidable.of_not_not fun h => hno (failed_error.mpr h))
  | read b => exact .inr (congrArg _ hnone)

/-- **The read loop is memory-safe, ends and is exact**, whatever the kernel
answers. -/
theorem read_exactly (k : Kernel) (parse : Bytes → Option Packet) (buf : Memory) :
    ReadExactly k parse (k.RecvMesg parse buf) := by
  have hcalls := k.RecvMesg_calls parse buf
  have hcases := k.RecvMesg_cases parse buf
  have hinside := hcalls.inside (by decide)
  have hfew := hcalls.few (by decide)
  obtain ⟨reads, last, heq, hreads, hlast⟩ := hcalls.reads_last
  rw [Nat.zero_add] at hlast
  refine ⟨?_, fun c hc => (hinside c hc).1, fun c hc => (hinside c hc).2, by omega, ?_, ?_, ?_⟩
  · intro j c hc
    simpa using hcalls.answered j c hc
  · rcases hcases with ⟨hwhy, hret, -⟩ | ⟨hno, hlt, hout⟩
    · simp only [hret, true_iff]
      rcases hwhy with hfailed | hfull
      · exact .inl hfailed
      · exact .inr (.inl hfull)
    · rw [hout, parseCollected_failed, ← hout]
      constructor
      · exact fun h => .inr (.inr h)
      · rintro (⟨c, hc, hfailed⟩ | hfull | h)
        · exact absurd hfailed (hno c hc)
        · omega
        · exact h
  · intro hne
    rcases hcases with ⟨-, hret, -⟩ | ⟨-, -, hout⟩
    · exact absurd hret hne
    · rw [hout] at hne
      have hexact := parseCollected_exactly hne
      rwa [← hout] at hexact
  · intro hne
    rcases hcases with ⟨-, hret, -⟩ | ⟨hno, hlt, -⟩
    · exact absurd hret hne
    · have hmem : last ∈ (k.RecvMesg parse buf).calls := by simp [heq]
      have hnone : last.ret.bytes = [] := hlast.resolve_right (by omega)
      exact ⟨reads, last, heq, hreads, RecvRet.stops (hno last hmem) hnone⟩

/-! ## The chunks of a burst -/

/-- What each call read. -/
def chunksOf (calls : List RecvCall) : List Bytes := calls.map fun c => c.ret.bytes

/-- What ended the loop. -/
def endOf (calls : List RecvCall) : RecvEnd :=
  if ∃ c ∈ calls, c.ret.Failed then .failed
  else if ∃ c ∈ calls, c.ret.Again then .eagain
  else .closed

theorem endOf_failed {calls : List RecvCall} : endOf calls = .failed ↔ ∃ c ∈ calls, c.ret.Failed := by
  unfold endOf
  split
  · rename_i h
    simp [h]
  · rename_i h
    split <;> simp [h]

theorem parsed_parseCollected (parse : Bytes → Option Packet) (conn : Conn) (fin : RecvEnd) (calls : List RecvCall) :
    (parsed parse conn fin (collected calls)).ret = (parseCollected parse calls).ret ∧
      (0 < (parseCollected parse calls).ret →
        (parsed parse conn fin (collected calls)).pkt = (parseCollected parse calls).msg) := by
  unfold parsed parseCollected
  cases parse (collected calls) with
  | none =>
    dsimp only
    exact ⟨rfl, fun h => absurd h (by decide)⟩
  | some msg =>
    dsimp only
    split
    · exact ⟨rfl, fun _ => rfl⟩
    · rename_i hnone
      rw [ne_eq, not_not] at hnone
      rw [hnone]
      split <;> exact ⟨rfl, fun h => absurd h (by decide)⟩

/-- The calls of `RecvMesg` come to what it gives on their chunks: the same return
value, and with a count the same packet. -/
theorem RecvMesg_chunks (k : Kernel) (parse : Bytes → Option Packet) (buf : Memory) (conn : Conn) :
    (RecvMesg parse conn (chunksOf (k.RecvMesg parse buf).calls) (endOf (k.RecvMesg parse buf).calls)).1.ret =
        (k.RecvMesg parse buf).ret ∧
      (0 < (k.RecvMesg parse buf).ret →
        (RecvMesg parse conn (chunksOf (k.RecvMesg parse buf).calls) (endOf (k.RecvMesg parse buf).calls)).1.pkt =
          (k.RecvMesg parse buf).msg) := by
  have hspec := recvLoop_spec (by decide : ([] : Bytes).length < kMaxMessageSize)
    (chunksOf (k.RecvMesg parse buf).calls)
  have hflatten : (chunksOf (k.RecvMesg parse buf).calls).flatten = collected (k.RecvMesg parse buf).calls := rfl
  rw [List.nil_append, hflatten] at hspec
  rcases k.RecvMesg_cases parse buf with ⟨hwhy, hret, -⟩ | ⟨hno, hlt, hout⟩
  · rw [hret]
    refine ⟨?_, fun h => absurd h (by decide)⟩
    rcases hspec with ⟨hlt, hl⟩ | ⟨-, rest, hl, -⟩
    · have hfailed := endOf_failed.mpr (hwhy.resolve_right (by omega))
      simp only [RecvMesg, hl, hfailed, if_true, RecvOut.ret]
    · simp only [RecvMesg, hl, RecvOut.ret]
  · rcases hspec with ⟨-, hl⟩ | ⟨hfull, -⟩
    · have hend : endOf (k.RecvMesg parse buf).calls ≠ .failed := by
        rw [ne_eq, endOf_failed]
        exact not_exists.mpr fun c hc => hno c hc.1 hc.2
      have hparsed := parsed_parseCollected parse conn (endOf (k.RecvMesg parse buf).calls) (k.RecvMesg parse buf).calls
      simpa only [RecvMesg, hl, hend, if_false, ← hout] using hparsed
    · omega

end NetChat
