/-
The bytes below `Van::Recv` and `Van::Send`. TCP hands a connection's stream
over in bursts: what can be read before `recv` reports EAGAIN, in as many
chunks as `recv` likes. `RecvMesg` parses whatever one burst holds as one
packet, so the packets of a stream come out as they went in exactly when each
burst is one packet.

Parsing is protobuf's, so it is a parameter here, and so is writing where the
client does it.
-/
import NetChat.Wire
import NetChat.State

namespace NetChat

/-! ## RecvMesg -/

/-- What ends the loop of `RecvMesg` once the bytes there are are read. -/
inductive RecvEnd
  | eagain
  | closed
  | failed
  deriving DecidableEq

/-- The loop of `RecvMesg`, `buf` being read already: each `recv` gives the
next chunk, or as much of it as there is room for. The result is what was
read, `none` for "message too large", and what is left unread. -/
def recvLoop (buf : Bytes) : List Bytes → Option Bytes × List Bytes
  | [] => (some buf, [])
  | chunk :: chunks =>
    if buf.length + chunk.length < kMaxMessageSize then recvLoop (buf ++ chunk) chunks
    else (none, chunk.drop (kMaxMessageSize - buf.length) :: chunks)

section
variable (parse : Bytes → Option Packet) (conn : Conn)

/-- The end of `RecvMesg`, `buf` holding what was read. -/
def parsed (fin : RecvEnd) (buf : Bytes) : RecvOut :=
  match parse buf with
  | none => .rejected
  | some pkt =>
    if buf ≠ [] then .packet conn buf.length pkt
    else if fin = .closed then .eof
    else .nothing

/-- `RecvMesg` on a connection with these chunks to read, and what is left of
them. -/
def RecvMesg (chunks : List Bytes) (fin : RecvEnd) : RecvOut × List Bytes :=
  match recvLoop [] chunks with
  | (none, rest) => (.rejected, rest)
  | (some buf, rest) => (if fin = .failed then .failed else parsed parse conn fin buf, rest)

/-- The calls for a connection, one a burst; what one leaves unread the next
one reads first. -/
def RecvMesgs (left : List Bytes) : List (List Bytes) → List RecvOut
  | [] => []
  | burst :: bursts =>
    let (out, rest) := RecvMesg parse conn (left ++ burst) .eagain
    out :: RecvMesgs rest bursts

end

/-- The packet of a call that returned with success. -/
def RecvOut.pkt : RecvOut → Option Packet
  | .packet _ _ pkt => some pkt
  | _ => none

section
variable {parse : Bytes → Option Packet} {conn : Conn} {ser : Packet → Bytes} {chunks left : List Bytes}
  {bursts : List (List Bytes)} {ps : List Packet}

/-- Fewer bytes than the buffer holds are all read; of more, the buffer's full. -/
theorem recvLoop_spec {buf : Bytes} (hbuf : buf.length < kMaxMessageSize) (chunks : List Bytes) :
    ((buf ++ chunks.flatten).length < kMaxMessageSize ∧ recvLoop buf chunks = (some (buf ++ chunks.flatten), [])) ∨
      (kMaxMessageSize ≤ (buf ++ chunks.flatten).length ∧
        ∃ rest, recvLoop buf chunks = (none, rest) ∧ rest.flatten = (buf ++ chunks.flatten).drop kMaxMessageSize) := by
  induction chunks generalizing buf with
  | nil => exact .inl ⟨by simpa using hbuf, by simp [recvLoop]⟩
  | cons chunk chunks ih =>
    unfold recvLoop
    by_cases hlt : buf.length + chunk.length < kMaxMessageSize
    · have hbuf' : (buf ++ chunk).length < kMaxMessageSize := by simpa using hlt
      simpa [hlt, List.append_assoc] using ih hbuf'
    · rw [if_neg hlt]
      refine .inr ⟨?_, _, rfl, ?_⟩
      · simp only [List.flatten_cons, List.length_append]
        omega
      · have hdrop : buf.drop kMaxMessageSize = [] := List.drop_eq_nil_of_le hbuf.le
        have hle : kMaxMessageSize - buf.length ≤ chunk.length := by omega
        rw [List.drop_append, hdrop, List.nil_append, List.flatten_cons, List.flatten_cons,
          List.drop_append_of_le_length hle]

theorem recv_parsed {s : State} {fd : Int32} (hfd : s.fds fd = some conn) {buf : Bytes}
    (hlt : buf.length < kMaxMessageSize) (fin : RecvEnd) : s.recv fd (parsed parse conn fin buf) = some s := by
  have hsome : (s.fds fd).isSome = true := by rw [hfd]; rfl
  unfold parsed
  split
  · exact if_pos hsome
  · split
    · rename_i hne
      exact if_pos ⟨hfd, List.length_pos_iff.mpr hne, hlt⟩
    · split <;> exact if_pos hsome

/-- What `RecvMesg` gives, `Van::Recv` may give. -/
theorem recv_RecvMesg {s : State} {fd : Int32} (hfd : s.fds fd = some conn) (chunks : List Bytes) (fin : RecvEnd) :
    s.recv fd (RecvMesg parse conn chunks fin).1 = some s := by
  unfold RecvMesg
  rcases recvLoop_spec (by decide : ([] : Bytes).length < kMaxMessageSize) chunks with ⟨hlt, hl⟩ | ⟨-, rest, hl, -⟩
  · rw [hl]
    dsimp only
    split
    · rfl
    · exact recv_parsed hfd hlt fin
  · rw [hl]
    exact if_pos (by rw [hfd]; rfl)

/-! ## Stream framing -/

/-- The packets the calls for a connection return with success, in order. -/
def packetsReceived (parse : Bytes → Option Packet) (conn : Conn) (left : List Bytes) (bursts : List (List Bytes)) :
    List Packet :=
  (RecvMesgs parse conn left bursts).filterMap RecvOut.pkt

theorem packetsReceived_nil : packetsReceived parse conn left [] = [] := rfl

theorem packetsReceived_cons (burst : List Bytes) :
    packetsReceived parse conn left (burst :: bursts) = (RecvMesg parse conn (left ++ burst) .eagain).1.pkt.toList ++
      packetsReceived parse conn (RecvMesg parse conn (left ++ burst) .eagain).2 bursts := by
  simp only [packetsReceived, RecvMesgs, List.filterMap_cons]
  cases (RecvMesg parse conn (left ++ burst) .eagain).1.pkt <;> rfl

theorem parsed_pkt (buf : Bytes) : (parsed parse conn .eagain buf).pkt = if buf = [] then none else parse buf := by
  unfold parsed
  cases parse buf with
  | none => simp [RecvOut.pkt]
  | some pkt => by_cases h : buf = [] <;> simp [h, RecvOut.pkt]

/-- What a burst leads to: with room in the buffer, what it parses as and
nothing left; without, an error and the bytes beyond the buffer left. -/
theorem RecvMesg_burst (parse : Bytes → Option Packet) (conn : Conn) (chunks : List Bytes) :
    (chunks.flatten.length < kMaxMessageSize ∧
        (RecvMesg parse conn chunks .eagain).1.pkt = (if chunks.flatten = [] then none else parse chunks.flatten) ∧
        (RecvMesg parse conn chunks .eagain).2 = []) ∨
      (kMaxMessageSize ≤ chunks.flatten.length ∧ (RecvMesg parse conn chunks .eagain).1.pkt = none ∧
        (RecvMesg parse conn chunks .eagain).2.flatten = chunks.flatten.drop kMaxMessageSize) := by
  have hspec := recvLoop_spec (by decide : ([] : Bytes).length < kMaxMessageSize) chunks
  rw [List.nil_append] at hspec
  rcases hspec with ⟨hlt, hl⟩ | ⟨hle, rest, hl, hrest⟩
  · refine .inl ⟨hlt, ?_, ?_⟩ <;> simp only [RecvMesg, hl]
    exact parsed_pkt _
  · refine .inr ⟨hle, ?_, ?_⟩ <;> simp only [RecvMesg, hl]
    · rfl
    · exact hrest

/-- Bursts that are the packets one by one are received as these. -/
theorem packetsReceived_aligned (hparse : ∀ p ∈ ps, parse (ser p) = some p)
    (hlen : ∀ p ∈ ps, 0 < (ser p).length ∧ (ser p).length < kMaxMessageSize)
    (h : bursts.map List.flatten = ps.map ser) : packetsReceived parse conn [] bursts = ps := by
  induction bursts generalizing ps with
  | nil => cases ps <;> simp_all [packetsReceived_nil]
  | cons burst bursts ih =>
    cases ps with
    | nil => simp at h
    | cons p ps =>
      simp only [List.map_cons, List.cons.injEq] at h
      obtain ⟨hburst, h⟩ := h
      obtain ⟨hpos, hlt⟩ := hlen p (by simp)
      have hrest := ih (fun q hq => hparse q (by simp [hq])) (fun q hq => hlen q (by simp [hq])) h
      rw [packetsReceived_cons, List.nil_append]
      rcases RecvMesg_burst parse conn burst with ⟨-, hp, hleft⟩ | ⟨hle, -⟩
      · have hne : ser p ≠ [] := List.length_pos_iff.mp hpos
        rw [hp, hleft, hrest, hburst, if_neg hne, hparse p (by simp)]
        rfl
      · rw [hburst] at hle
        omega

/-- What is received fits in the bytes there were, a packet having no shorter
form than its serialization. -/
theorem packetsReceived_length_le
    (hshort : ∀ p ∈ packetsReceived parse conn left bursts, ∀ b, parse b = some p → (ser p).length ≤ b.length) :
    ((packetsReceived parse conn left bursts).map fun p => (ser p).length).sum ≤
      left.flatten.length + (bursts.map fun b => b.flatten.length).sum := by
  induction bursts generalizing left with
  | nil => simp [packetsReceived_nil]
  | cons burst bursts ih =>
    rw [packetsReceived_cons] at hshort ⊢
    have hrest := ih fun p hp => hshort p (List.mem_append_right _ hp)
    have hflat : (left ++ burst).flatten.length = left.flatten.length + burst.flatten.length := by
      simp only [List.flatten_append, List.length_append]
    simp only [List.map_append, List.sum_append, List.map_cons, List.sum_cons]
    rcases RecvMesg_burst parse conn (left ++ burst) with ⟨-, hp, hleft⟩ | ⟨hle, hp, hleft⟩
    · rw [hleft] at hrest ⊢
      rw [List.flatten_nil, List.length_nil] at hrest
      have hhead : ((RecvMesg parse conn (left ++ burst) .eagain).1.pkt.toList.map fun p => (ser p).length).sum ≤
          (left ++ burst).flatten.length := by
        rw [hp] at hshort ⊢
        by_cases hne : (left ++ burst).flatten = []
        · simp [hne]
        · rw [if_neg hne] at hshort ⊢
          cases hq : parse (left ++ burst).flatten with
          | none => simp
          | some q =>
            rw [hq] at hshort
            simpa using hshort q (by simp) _ hq
      omega
    · rw [hleft, List.length_drop] at hrest
      rw [hp]
      simp only [Option.toList_none, List.map_nil, List.sum_nil]
      omega

/-- Where the packets received take all the bytes there were, each took one
burst. -/
theorem packetsReceived_lengths (hburst : ∀ b ∈ bursts, b.flatten ≠ [])
    (hshort : ∀ p ∈ packetsReceived parse conn [] bursts, ∀ b, parse b = some p → (ser p).length ≤ b.length)
    (hall : (bursts.map fun b => b.flatten.length).sum =
      ((packetsReceived parse conn [] bursts).map fun p => (ser p).length).sum) :
    (bursts.map fun b => b.flatten.length) = (packetsReceived parse conn [] bursts).map fun p => (ser p).length := by
  induction bursts with
  | nil => rfl
  | cons burst bursts ih =>
    have hpos : 0 < burst.flatten.length := List.length_pos_iff.mpr (hburst burst (by simp))
    rw [packetsReceived_cons, List.nil_append] at hshort hall ⊢
    have hrest := packetsReceived_length_le fun p hp => hshort p (List.mem_append_right _ hp)
    simp only [List.map_append, List.sum_append, List.map_cons, List.sum_cons] at hall ⊢
    rcases RecvMesg_burst parse conn burst with ⟨-, hp, hleft⟩ | ⟨hle, hp, hleft⟩
    · rw [hleft] at hshort hall hrest ⊢
      rw [List.flatten_nil, List.length_nil] at hrest
      rw [hp, if_neg (List.length_pos_iff.mp hpos)] at hshort hall ⊢
      cases hq : parse burst.flatten with
      | none =>
        -- a call that fails takes bytes no packet accounts for
        rw [hq] at hall
        simp only [Option.toList_none, List.map_nil, List.sum_nil] at hall
        omega
      | some q =>
        rw [hq] at hshort hall
        have hlen := hshort q (by simp) _ hq
        simp only [Option.toList_some, List.map_cons, List.map_nil, List.sum_cons, List.sum_nil] at hall ⊢
        rw [List.singleton_append, List.cons.injEq]
        refine ⟨by omega, ih (fun b hb => hburst b (by simp [hb])) (fun p hp => hshort p (by simp [hp])) (by omega)⟩
    · rw [hleft, List.length_drop] at hrest
      rw [hp] at hall
      simp only [Option.toList_none, List.map_nil, List.sum_nil] at hall
      have hmax : 0 < kMaxMessageSize := by decide
      omega

/-- **Stream framing, where it holds.** A stream is received as the packets it
was written from when each burst is one of them; and, a packet having no
shorter form than its serialization, only then. -/
theorem stream_framing (hparse : ∀ p ∈ ps, parse (ser p) = some p)
    (hlen : ∀ p ∈ ps, 0 < (ser p).length ∧ (ser p).length < kMaxMessageSize) (hburst : ∀ b ∈ bursts, b.flatten ≠ [])
    (hstream : (bursts.map List.flatten).flatten = (ps.map ser).flatten) :
    (bursts.map List.flatten = ps.map ser → packetsReceived parse conn [] bursts = ps) ∧
      ((∀ p ∈ ps, ∀ b, parse b = some p → (ser p).length ≤ b.length) →
        packetsReceived parse conn [] bursts = ps → bursts.map List.flatten = ps.map ser) := by
  refine ⟨packetsReceived_aligned hparse hlen, fun hshort h => ?_⟩
  subst h
  have hall := congrArg List.length hstream
  rw [List.length_flatten, List.length_flatten, List.map_map, List.map_map] at hall
  rw [List.eq_iff_flatten_eq, List.map_map, List.map_map]
  exact ⟨hstream, packetsReceived_lengths hburst hshort hall⟩

end

namespace Example

/-- What protobuf reads of packets without content and with ids below 128: the
last id there is. -/
def parseIds (id : Int32) : Bytes → Option Packet
  | [] => some ⟨id, none⟩
  | 8 :: v :: rest => if v < 128 then parseIds (Int32.ofNat v.toNat) rest else none
  | _ => none

/-- A `LoginPreRequest` and a `LoginRequest`, neither with its content. -/
def twoPackets : List Packet := [⟨2, none⟩, ⟨4, none⟩]

end Example

/-- Two packets in one burst are received as one. -/
theorem not_streamFraming : ¬ ∀ (parse : Bytes → Option Packet) (conn : Conn) (ser : Packet → Bytes) (ps : List Packet)
    (bursts : List (List Bytes)), (∀ p ∈ ps, parse (ser p) = some p) →
      (∀ p ∈ ps, 0 < (ser p).length ∧ (ser p).length < kMaxMessageSize) → (∀ b ∈ bursts, b.flatten ≠ []) →
      (bursts.map List.flatten).flatten = (ps.map ser).flatten → packetsReceived parse conn [] bursts = ps := by
  intro h
  have hone := h (Example.parseIds 0) 0 Packet.serialize Example.twoPackets [[[8, 2, 8, 4]]] (by decide) (by decide)
    (by decide) (by decide)
  exact absurd hone (by decide)

/-- In a burst each they are received as two, in however many chunks. -/
theorem stream_framing_two :
    packetsReceived (Example.parseIds 0) 0 [] [[[8], [2]], [[8, 4]]] = Example.twoPackets :=
  (stream_framing (show ∀ p ∈ Example.twoPackets, Example.parseIds 0 p.serialize = some p by decide) (by decide)
    (by decide) (by decide)).1 (by decide)

/-! ## SendMesg -/

/-- `msg.SerializeToArray(buf, size)`: whether it succeeded, and the buffer
after it, unchanged when the message has no room in it. -/
def Packet.SerializeToArray (p : Packet) (buf : Bytes) : Bool × Bytes :=
  if p.serialize.length ≤ buf.length then (true, p.serialize ++ buf.drop p.serialize.length) else (false, buf)

/-- The loop of `SendMesg`, with how much of the rest each `send` would take
until one fails: what went out and the value returned; `none` when a `send`
is given bytes beyond the buffer. -/
def sendLoop (buf : Bytes) (len bytes : Nat) (sizes : List Nat) : Option (Bytes × Int) :=
  if len ≤ bytes then some ([], bytes)
  else match sizes with
    | [] => some ([], -1)
    | size :: sizes =>
      if buf.length < len then none
      else
        let size_send := min size (len - bytes)
        (sendLoop buf len (bytes + size_send) sizes).map fun (out, ret) =>
          ((buf.drop bytes).take size_send ++ out, ret)

/-- `SendMesg` with what its buffer holds before. Neither the result of
`SerializeToArray` nor the length is looked at. -/
def SendMesg (p : Packet) (buf : Bytes) (sizes : List Nat) : Option (Bytes × Int) :=
  sendLoop (p.SerializeToArray buf).2 p.serialize.length 0 sizes

/-- From a buffer that begins with a message, the loop sends what is left of it,
or a part of that. -/
theorem sendLoop_spec {msg rest : Bytes} {bytes : Nat} (hle : bytes ≤ msg.length) (sizes : List Nat) :
    ∃ out ret, sendLoop (msg ++ rest) msg.length bytes sizes = some (out, ret) ∧ out <+: msg.drop bytes ∧
      (ret = -1 ∨ ret = msg.length ∧ out = msg.drop bytes) := by
  induction sizes generalizing bytes with
  | nil =>
    unfold sendLoop
    split
    · rename_i h
      refine ⟨[], bytes, rfl, List.nil_prefix, .inr ⟨by omega, ?_⟩⟩
      rw [List.drop_eq_nil_of_le h]
    · exact ⟨[], -1, rfl, List.nil_prefix, .inl rfl⟩
  | cons size sizes ih =>
    unfold sendLoop
    split
    · rename_i h
      refine ⟨[], bytes, rfl, List.nil_prefix, .inr ⟨by omega, ?_⟩⟩
      rw [List.drop_eq_nil_of_le h]
    · rename_i h
      have hbuf : ¬ (msg ++ rest).length < msg.length := by simp
      have hle' : bytes + min size (msg.length - bytes) ≤ msg.length := by omega
      obtain ⟨out, ret, hsend, hprefix, hret⟩ := ih hle'
      have htake : ((msg ++ rest).drop bytes).take (min size (msg.length - bytes)) =
          (msg.drop bytes).take (min size (msg.length - bytes)) := by
        rw [List.drop_append_of_le_length hle, List.take_append_of_le_length (by rw [List.length_drop]; omega)]
      have hdrop : msg.drop (bytes + min size (msg.length - bytes)) =
          (msg.drop bytes).drop (min size (msg.length - bytes)) := (List.drop_drop ..).symm
      dsimp only
      rw [if_neg hbuf, hsend, htake]
      rw [hdrop] at hprefix hret
      refine ⟨_, ret, rfl, ?_, hret.imp_right fun hret => ⟨hret.1, ?_⟩⟩
      · conv => rhs; rw [← List.take_append_drop (min size (msg.length - bytes)) (msg.drop bytes)]
        exact (List.prefix_append_right_inj _).mpr hprefix
      · rw [hret.2, List.take_append_drop]

/-- A packet is sent as `SendMesg` means it: it is serialized, every byte read
is one of the serialization's, and with success they all went out. -/
def Packet.Sendable (p : Packet) : Prop :=
  ∀ buf sizes, buf.length = kMaxMessageSize → (p.SerializeToArray buf).1 = true ∧
    ∃ out ret, SendMesg p buf sizes = some (out, ret) ∧ out <+: p.serialize ∧
      (ret = -1 ∨ ret = p.serialize.length ∧ out = p.serialize)

/-- What fits the buffer is sent; of what does not, bytes beyond it are read. -/
theorem sendable_iff {p : Packet} : p.Sendable ↔ p.serialize.length ≤ kMaxMessageSize := by
  constructor
  · intro h
    obtain ⟨hok, -⟩ := h (List.replicate kMaxMessageSize 0) [] List.length_replicate
    by_contra hlt
    simp [Packet.SerializeToArray, hlt] at hok
  · intro hle buf sizes hbuf
    rw [← hbuf] at hle
    simp only [SendMesg, Packet.SerializeToArray, if_pos hle]
    exact ⟨trivial, sendLoop_spec (Nat.zero_le _) sizes⟩

/-! ## A peer that stays connected -/

/-- The results of the `send`s on a non-blocking socket whose peer stays connected:
each takes some bytes, or all there are if these are fewer, or is refused because the
socket's buffer is full, which it is not for ever. -/
structure LiveResults (results : Nat → Option Nat) : Prop where
  positive : ∀ i n, results i = some n → 0 < n
  again : ∀ i, ∃ j, i ≤ j ∧ (results j).isSome = true

/-- The sizes of the first `n` sends, as far as none is refused: `SendMesg` takes a
refusal for a failure. -/
def untilRefused (results : Nat → Option Nat) : Nat → List Nat
  | 0 => []
  | n + 1 =>
    match results 0 with
    | none => []
    | some size => size :: untilRefused (fun i => results (i + 1)) n

/-- What the sends before the `i`-th would take. -/
def takenBefore (results : Nat → Option Nat) (i : Nat) : Nat := ((List.range i).map fun j => (results j).getD 0).sum

/-- `SendMesg` with these results returns the packet's length, having emitted its bytes.
As every send takes some, no more than that many are made. -/
def Packet.SentWhole (p : Packet) (results : Nat → Option Nat) : Prop :=
  ∀ buf, buf.length = kMaxMessageSize →
    SendMesg p buf (untilRefused results p.serialize.length) = some (p.serialize, (p.serialize.length : Int))

/-- The loop sends all that is left exactly when the sizes come to that much. -/
theorem sendLoop_whole {msg rest : Bytes} {bytes : Nat} (hle : bytes ≤ msg.length) (sizes : List Nat) :
    sendLoop (msg ++ rest) msg.length bytes sizes = some (msg.drop bytes, (msg.length : Int)) ↔
      msg.length ≤ bytes + sizes.sum := by
  have hdone : ∀ bytes, bytes ≤ msg.length → msg.length ≤ bytes →
      some (([] : Bytes), (bytes : Int)) = some (msg.drop bytes, (msg.length : Int)) := by
    intro bytes hle h
    rw [List.drop_eq_nil_of_le h, le_antisymm hle h]
  induction sizes generalizing bytes with
  | nil =>
    unfold sendLoop
    split
    · rename_i h
      simpa [h] using hdone bytes hle h
    · rename_i h
      simp only [Option.some.injEq, Prod.mk.injEq, List.sum_nil, Nat.add_zero, h, iff_false, not_and]
      omega
  | cons size sizes ih =>
    unfold sendLoop
    split
    · rename_i h
      simp only [hdone bytes hle h, true_iff]
      omega
    · rename_i h
      have hbuf : ¬ (msg ++ rest).length < msg.length := by simp
      have hle' : bytes + min size (msg.length - bytes) ≤ msg.length := by omega
      have htake : ((msg ++ rest).drop bytes).take (min size (msg.length - bytes)) =
          (msg.drop bytes).take (min size (msg.length - bytes)) := by
        rw [List.drop_append_of_le_length hle, List.take_append_of_le_length (by rw [List.length_drop]; omega)]
      have hsum : msg.length ≤ bytes + (size :: sizes).sum ↔
          msg.length ≤ bytes + min size (msg.length - bytes) + sizes.sum := by
        rw [List.sum_cons]
        omega
      have hdrop : msg.drop bytes = (msg.drop bytes).take (min size (msg.length - bytes)) ++
          msg.drop (bytes + min size (msg.length - bytes)) := by
        rw [← List.drop_drop, List.take_append_drop]
      refine Iff.trans ?_ ((ih hle').trans hsum.symm)
      dsimp only
      rw [if_neg hbuf, htake]
      obtain ⟨out, ret, hsend, -, -⟩ := @sendLoop_spec _ rest _ hle' sizes
      have hout : (msg.drop bytes).take (min size (msg.length - bytes)) ++ out = msg.drop bytes ↔
          out = msg.drop (bytes + min size (msg.length - bytes)) :=
        ⟨fun h => List.append_cancel_left (h.trans hdrop), fun h => h ▸ hdrop.symm⟩
      rw [hsend]
      simp [hout]

/-- Up to the first refusal the sends take `len` bytes exactly when every refusal comes
after that many. -/
theorem taken_iff {results : Nat → Option Nat} (hpos : ∀ i n, results i = some n → 0 < n) {len n : Nat} (hn : len ≤ n) :
    len ≤ (untilRefused results n).sum ↔ ∀ i, results i = none → len ≤ takenBefore results i := by
  induction n generalizing results len with
  | zero => simp [Nat.le_zero.mp hn]
  | succ n ih =>
    cases hfirst : results 0 with
    | none =>
      simp only [untilRefused, hfirst, List.sum_nil]
      exact ⟨fun h i _ => by omega, fun h => h 0 hfirst⟩
    | some size =>
      have hsize := hpos 0 size hfirst
      have hrest := ih (fun i m => hpos (i + 1) m) (show len - size ≤ n by omega)
      have hshift : ∀ i, takenBefore results (i + 1) = size + takenBefore (fun i => results (i + 1)) i := by
        intro i
        simp [takenBefore, List.range_succ_eq_map, hfirst, Function.comp_def]
      simp only [untilRefused, hfirst, List.sum_cons]
      constructor
      · intro h i hi
        cases i with
        | zero => rw [hfirst] at hi; cases hi
        | succ i =>
          have := hrest.mp (by omega) i hi
          rw [hshift]
          omega
      · intro h
        have := hrest.mpr fun i hi => by
          have := h (i + 1) hi
          rw [hshift] at this
          omega
        omega

/-- **A live peer gets the whole packet** if and only if no send is refused before the
others have taken all of it. -/
theorem sent_whole {p : Packet} {results : Nat → Option Nat} (hlen : p.serialize.length ≤ kMaxMessageSize)
    (hlive : LiveResults results) :
    p.SentWhole results ↔ ∀ i, results i = none → p.serialize.length ≤ takenBefore results i := by
  rw [← taken_iff hlive.positive le_rfl]
  have hwhole : ∀ buf : Bytes, buf.length = kMaxMessageSize →
      (SendMesg p buf (untilRefused results p.serialize.length) = some (p.serialize, (p.serialize.length : Int)) ↔
        p.serialize.length ≤ (untilRefused results p.serialize.length).sum) := by
    intro buf hbuf
    rw [← hbuf] at hlen
    simp only [SendMesg, Packet.SerializeToArray, if_pos hlen]
    simpa using @sendLoop_whole _ (buf.drop p.serialize.length) _ (Nat.zero_le p.serialize.length)
      (untilRefused results p.serialize.length)
  constructor
  · intro h
    have hbuf : (List.replicate kMaxMessageSize (0 : UInt8)).length = kMaxMessageSize := List.length_replicate
    exact (hwhole _ hbuf).mp (h _ hbuf)
  · exact fun h buf hbuf => (hwhole buf hbuf).mpr h

/-- A packet whose first send is refused is given up. -/
theorem not_sentWhole : ¬ ∀ (p : Packet) (results : Nat → Option Nat), p.serialize.length ≤ kMaxMessageSize →
    LiveResults results → p.SentWhole results := by
  intro h
  let results : Nat → Option Nat := fun i => if i = 0 then none else some 2
  have hlive : LiveResults results := by
    constructor
    · intro i n hi
      simp only [results] at hi
      split at hi
      · cases hi
      · cases hi
        omega
    · exact fun i => ⟨i + 1, by omega, by simp [results]⟩
  have hwhole := h ⟨2, none⟩ results (by decide) hlive (List.replicate kMaxMessageSize 0) List.length_replicate
  have hgiven : untilRefused results (Packet.serialize ⟨2, none⟩).length = [] := by decide
  have hlen : ¬ (Packet.serialize ⟨2, none⟩).length ≤ 0 := by decide
  rw [hgiven, SendMesg, sendLoop, if_neg hlen] at hwhole
  cases hwhole

/-- Byte by byte it is sent. -/
theorem sent_whole_byByte : (⟨2, none⟩ : Packet).SentWhole fun _ => some 1 :=
  (sent_whole (by decide) ⟨fun _ n h => by cases h; omega, fun i => ⟨i, le_rfl, rfl⟩⟩).mpr fun _ h => by cases h

/-! ## The limit on both sides -/

/-- A packet's bytes on their way: the sends take them in these positive counts, the
recvs give them in these, and the end comes after the last. -/
structure Transfer (p : Packet) (sizes : List Nat) (chunks : List Bytes) (fin : RecvEnd) : Prop where
  sends : ∀ size ∈ sizes, 0 < size
  sent : sizes.sum = p.serialize.length
  recvs : ∀ chunk ∈ chunks, chunk ≠ []
  received : chunks.flatten = p.serialize
  ends : fin ≠ .failed

/-- The sender emits the packet's bytes and returns their number, and the receiver
returns that number and the packet. -/
structure BothPass (parse : Bytes → Option Packet) (conn : Conn) (p : Packet) (buf : Bytes) (sizes : List Nat)
    (chunks : List Bytes) (fin : RecvEnd) : Prop where
  sent : SendMesg p buf sizes = some (p.serialize, (p.serialize.length : Int))
  ret : (RecvMesg parse conn chunks fin).1.ret = p.serialize.length
  received : (RecvMesg parse conn chunks fin).1.pkt = some p

section
variable {parse : Bytes → Option Packet} {conn : Conn} {p : Packet} {buf : Bytes} {sizes : List Nat}
  {chunks : List Bytes} {fin : RecvEnd}

/-- What the buffer holds goes out, in whatever counts. -/
theorem SendMesg_whole (hbuf : buf.length = kMaxMessageSize) (hle : p.serialize.length ≤ kMaxMessageSize)
    (hsum : sizes.sum = p.serialize.length) :
    SendMesg p buf sizes = some (p.serialize, (p.serialize.length : Int)) := by
  have hroom : p.serialize.length ≤ buf.length := by omega
  have hwhole := (@sendLoop_whole p.serialize (buf.drop p.serialize.length) 0 (Nat.zero_le _) sizes).mpr (by omega)
  simpa only [SendMesg, Packet.SerializeToArray, if_pos hroom, List.drop_zero] using hwhole

/-- What leaves room in the buffer comes in, in whatever counts. -/
theorem RecvMesg_whole (hlt : chunks.flatten.length < kMaxMessageSize) (hpos : 0 < chunks.flatten.length)
    (hparse : parse chunks.flatten = some p) (hfin : fin ≠ .failed) :
    RecvMesg parse conn chunks fin = (.packet conn chunks.flatten.length p, []) := by
  rcases recvLoop_spec (by decide : ([] : Bytes).length < kMaxMessageSize) chunks with ⟨-, hl⟩ | ⟨hfull, -⟩
  · have hne : chunks.flatten ≠ [] := List.length_pos_iff.mp hpos
    rw [List.nil_append] at hl
    simp only [RecvMesg, hl, if_neg hfin, parsed, hparse, if_pos hne]
  · rw [List.nil_append] at hfull
    omega

/-- What fills the buffer is refused. -/
theorem RecvMesg_full (hfull : kMaxMessageSize ≤ chunks.flatten.length) :
    (RecvMesg parse conn chunks fin).1 = .rejected := by
  rcases recvLoop_spec (by decide : ([] : Bytes).length < kMaxMessageSize) chunks with ⟨hlt, -⟩ | ⟨-, rest, hl, -⟩
  · rw [List.nil_append] at hlt
    omega
  · simp only [RecvMesg, hl]

/-- **Sender and receiver agree on every size but the largest**: of what fits the
sender's buffer, the receiver takes all that leaves a byte of its own free. -/
theorem bothPass_iff (hbuf : buf.length = kMaxMessageSize)
    (hlen : 0 < p.serialize.length ∧ p.serialize.length ≤ kMaxMessageSize) (h : Transfer p sizes chunks fin)
    (hparse : parse p.serialize = some p) :
    BothPass parse conn p buf sizes chunks fin ↔ p.serialize.length < kMaxMessageSize := by
  have hsend := SendMesg_whole hbuf hlen.2 h.sent
  obtain ⟨-, -, -, hflatten, hfin⟩ := h
  rw [← hflatten] at hlen hparse
  constructor
  · intro hpass
    by_contra hlt
    rw [← hflatten] at hlt
    have hret := hpass.ret
    rw [RecvMesg_full (by omega), ← hflatten] at hret
    simp only [RecvOut.ret] at hret
    omega
  · intro hlt
    rw [← hflatten] at hlt
    have hrecv : RecvMesg parse conn chunks fin = _ := RecvMesg_whole hlt hlen.1 hparse hfin
    refine ⟨hsend, ?_, ?_⟩ <;> rw [hrecv]
    · rw [RecvOut.ret, hflatten]
    · rfl

end

namespace Example

/-- A `LoginPreRequest` for a name of this many bytes. -/
def named (n : Nat) : Packet := packToPacket .LoginPreRequest (.LoginPreRequest ⟨List.replicate n 97⟩)

theorem length_named (n : Nat) :
    (named n).serialize.length = envelopeSize .LoginPreRequest 46 (Wire.stringSize n) := by
  have hurl : (Body.LoginPreRequest ⟨List.replicate n 97⟩).typeUrl.length = 46 := by
    simp only [Body.typeUrl, Body.name]
    decide +kernel
  rw [named, length_serialize, hurl, Body.encode, Wire.length_stringField (by decide), List.length_replicate]

end Example

/-- A packet of 1 MB is sent and not received. -/
theorem not_received_full {p : Packet} (hlen : p.serialize.length = kMaxMessageSize)
    (parse : Bytes → Option Packet) (buf : Bytes) :
    Transfer p [p.serialize.length] [p.serialize] .eagain ∧
      ¬ BothPass parse 0 p buf [p.serialize.length] [p.serialize] .eagain := by
  have hpos : 0 < p.serialize.length := by rw [hlen]; decide
  refine ⟨⟨by simpa using hpos, by simp, by simpa using List.length_pos_iff.mp hpos, by simp, by decide⟩, ?_⟩
  intro h
  have hret := h.ret
  rw [RecvMesg_full (by simpa using le_of_eq hlen.symm)] at hret
  simp only [RecvOut.ret] at hret
  omega

/-- There is such a packet. -/
theorem not_bothPass : ¬ ∀ (parse : Bytes → Option Packet) (conn : Conn) (p : Packet) (buf : Bytes)
    (sizes : List Nat) (chunks : List Bytes) (fin : RecvEnd), buf.length = kMaxMessageSize →
      0 < p.serialize.length ∧ p.serialize.length ≤ kMaxMessageSize → Transfer p sizes chunks fin →
      parse p.serialize = some p → BothPass parse conn p buf sizes chunks fin := by
  intro h
  obtain ⟨p, hlen⟩ : ∃ p : Packet, p.serialize.length = kMaxMessageSize :=
    ⟨Example.named 1048514, by rw [Example.length_named]; decide⟩
  have hpos : 0 < p.serialize.length := by rw [hlen]; decide
  have hfull := not_received_full hlen (fun b => if b = p.serialize then some p else none)
    (List.replicate kMaxMessageSize 0)
  exact hfull.2 (h _ 0 p _ _ _ _ List.length_replicate ⟨hpos, le_of_eq hlen⟩ hfull.1 (if_pos rfl))

/-- A small one, byte by byte, is. -/
theorem bothPass_byByte :
    BothPass (Example.parseIds 0) 0 ⟨2, none⟩ (List.replicate kMaxMessageSize 0) [1, 1] [[8], [2]] .eagain :=
  (bothPass_iff (p := ⟨2, none⟩) List.length_replicate (by decide)
    ⟨by decide, by decide, by decide, by decide, by decide⟩ (by decide)).mpr (by decide)

end NetChat
